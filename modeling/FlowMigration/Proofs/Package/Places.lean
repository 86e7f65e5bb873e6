import FlowMigration.Proofs.Package.Matching
import FlowMigration.Proofs.Package.Ownership
import FlowMigration.Proofs.Walk.Places

/-!
# Packages and their files by places

A repository where all names are plain, given by a `root` that addresses it: which directories are
packages and which files they collect, said of the tree alone.

* `exists_package_iff`: the packages are the directories that `IsPackage`, with a manifest that a
  walk comes to.
* `mem_collect_iff`: a package collects each `SourceFile` that it is the `Nearest` package of.
* `isOk_load`, `isOk_collect`: both fail only for faults in the ignore files of directories around.
-/

namespace FlowMigration

open PackageScope (LiteralNames PlainNames Nearest IsSource ofEntry defaultSources takesIn directory
  reaches)
open Walk (RuledOut Passes layersAbove)

/-! ## Plain repositories -/

/-- Names of `entries` that stand for themselves in rules. -/
def PlainEntries (entries : List (String × Node)) : Prop :=
  ∀ e ∈ entries, Glob.Plain e.1.toList ∧ e.1.toList.head? ≠ some '!' ∧ e.1.toList.head? ≠ some '#'

instance : DecidablePred PlainEntries := fun entries =>
  inferInstanceAs (Decidable (∀ e ∈ entries, _))

theorem plainNames_of_get? {top node : Node} {names : List String} (hw : top.WellFormed)
    (hplain : top.Throughout PlainEntries) (hnode : top.get? names = some node) :
    PlainNames names := by
  have hentry : ∀ n ∈ names, Glob.Plain n.toList ∧ n.toList.head? ≠ some '!' ∧
      n.toList.head? ≠ some '#' := by
    intro n hn
    obtain ⟨entries, child, hentries, hmem⟩ := hplain.step hnode hn
    exact hentries _ hmem
  exact ⟨fun n hn => (hw.legal hnode n hn).toIsName, fun n hn => (hentry n hn).1,
    fun n hn => (hentry n hn).2⟩

/-- A directory at `home` with plain names only, on a disk that a file system allows. -/
structure PlainRepository (disk : Disk) (home : List String) : Prop where
  legal : disk.Legal
  dir : disk.root.kindAt home = some .dir
  plain : ∀ node, disk.root.get? home = some node → node.Throughout PlainEntries

/-! ## Nearest packages -/

/-- The `Nearest` package excludes nothing around. -/
theorem PackageScope.nearest_iff {records : List ManifestRecord} {e : TopologyEntry}
    (he : e ∈ Topology.build records) {dirs : List String} :
    Nearest (Topology.build records) e dirs ↔
      e.parts <+: dirs ∧ ∀ x ∈ e.excludes, ¬x <+: dirs := by
  refine and_congr_right fun hpre => ⟨fun hnear x hx hin => ?_, fun hnone g hg hin => ?_⟩
  · obtain ⟨⟨habove, hne⟩, g, hg, rfl⟩ := Topology.exists_of_mem_excludes he hx
    exact hne (habove.eq_of_length_le (hnear g hg hin)).symm
  · by_contra hlong
    have habove := List.prefix_of_prefix_length_le hpre hin (by omega)
    have hne : g.parts ≠ e.parts := fun heq => hlong (Nat.le_of_eq (congrArg _ heq))
    exact hnone _ (Topology.mem_excludes he hg ⟨habove, hne⟩) hin

/-- Around what lies in the package `g` there is a nearest package. -/
theorem PackageScope.exists_nearest {records : List ManifestRecord} {g : TopologyEntry}
    (hg : g ∈ Topology.build records) {dirs : List String} (hin : g.parts <+: dirs) :
    ∃ e ∈ Topology.build records, Nearest (Topology.build records) e dirs := by
  induction hsize : dirs.length - g.parts.length using Nat.strongRecOn generalizing g with
  | _ size ih =>
    by_cases hlongest : ∀ g' ∈ Topology.build records, g'.parts <+: dirs →
        g'.parts.length ≤ g.parts.length
    · exact ⟨g, hg, hin, hlongest⟩
    · simp only [not_forall, Nat.not_le] at hlongest
      obtain ⟨g', hg', hin', hlonger⟩ := hlongest
      have hlen := hin'.length_le
      exact ih _ (by omega) hg' hin' rfl

namespace PlainRepository

variable {disk : Disk} {root : String} {home names parts : List String}

theorem of_root (hlegal : disk.Legal) (hplain : disk.root.Throughout PlainEntries) :
    PlainRepository disk [] := by
  refine ⟨hlegal, hlegal.top, fun node hnode => ?_⟩
  rw [Node.get?_nil] at hnode
  rwa [← Option.some.inj hnode]

theorem plainNames (h : PlainRepository disk home) {node : Node}
    (hnode : disk.root.get? (home ++ names) = some node) : PlainNames names := by
  rw [Node.get?_append] at hnode
  obtain ⟨top, htop, hnode⟩ := Option.bind_eq_some_iff.1 hnode
  exact plainNames_of_get? (h.legal.wellFormed.get? htop) (h.plain top htop) hnode

theorem relativeUnix_joinAll (hne : root ≠ "") (hnames : PlainNames names) :
    Path.relativeUnix root (Path.joinAll root names) = Path.ofSegments names :=
  Path.relativeUnix_joinAll hne hnames.names fun n hn hback =>
    hnames.plain n hn '\\' hback (by decide)

/-! ## Manifests -/

/-- Nothing on the way from the directory `home` by `names` is ruled out. -/
def Visible (disk : Disk) (home names : List String) : Prop :=
  ∀ front, front ≠ [] → front <+: names → ¬RuledOut disk (home ++ front)

theorem get?_front {front : List String} {node : Node} (hfront : front <+: names)
    (hnode : disk.root.get? (home ++ names) = some node) :
    ∃ node', disk.root.get? (home ++ front) = some node' := by
  obtain ⟨rest, rfl⟩ := hfront
  rw [← List.append_assoc, Node.get?_append] at hnode
  obtain ⟨node', hnode', -⟩ := Option.bind_eq_some_iff.1 hnode
  exact ⟨node', hnode'⟩

theorem forall_getLast?_ne {name : String} :
    (∀ front, front ≠ [] → front <+: names → front.getLast? ≠ some name) ↔ name ∉ names := by
  constructor
  · intro h hmem
    obtain ⟨before, after, rfl⟩ := List.append_of_mem hmem
    exact h (before ++ [name]) (by simp) ⟨after, by simp⟩ (by simp)
  · intro h front _ hfront hlast
    exact h (hfront.mem (List.mem_of_getLast? hlast))

/-- **The manifests** are the files of their name that are `Visible`, outside of dependencies. -/
theorem mem_discover_iff (h : PlainRepository disk home) (hroot : disk.Addresses root home)
    {found : List (List String)} (hfound : ManifestRecord.discover disk root = .ok found) :
    names ∈ found ↔ disk.root.kindAt (home ++ names) = some .file ∧
      names.getLast? = some Manifest.fileName ∧ Manifest.dependencyDir ∉ names ∧
        Visible disk home names := by
  obtain ⟨inside, hdir⟩ := Node.kindAt_eq_dir.1 h.dir
  obtain ⟨walked, hwalk, rfl⟩ := ManifestRecord.discover_eq_ok.1 hfound
  simp only [List.mem_map, List.mem_filter, Bool.and_eq_true, beq_iff_eq]
  have hwalked := fun (w : WalkEntry) => Walk.mem_entries_iff_of_isFile h.legal.wellFormed
    h.legal.top hroot hdir hwalk (e := w)
  have hlastName : names ≠ [] →
      ManifestRecord.lastName? root names = names.getLast? := by
    intro hne
    rw [ManifestRecord.lastName?, List.getLast?_eq_some_getLast hne]
  constructor
  · rintro ⟨w, ⟨hmem, hfile, hlast⟩, rfl⟩
    obtain ⟨hne, hnode, hpass⟩ := (hwalked w hfile).1 hmem
    refine ⟨?_, (hlastName hne).symm.trans hlast, forall_getLast?_ne.1 fun front hf hpre => ?_,
      fun front hf hpre => ?_⟩
    · rw [Node.kindAt, hnode]
      cases hw : w.node <;> simp [hw, Node.isFile, Node.kind] at hfile ⊢
    · obtain ⟨node, -, hkeep, -⟩ := hpass front hf hpre
      simpa [ManifestRecord.reaches] using hkeep
    · obtain ⟨node, -, -, hno⟩ := hpass front hf hpre
      exact hno
  · rintro ⟨hfile, hlast, hdeps, hvisible⟩
    obtain ⟨content, hnode⟩ := Node.kindAt_eq_file.1 hfile
    have hne : names ≠ [] := by
      rintro rfl
      cases hlast
    refine ⟨⟨names, .file content⟩, ⟨(hwalked _ rfl).2 ⟨hne, hnode, fun front hf hpre => ?_⟩, rfl,
      (hlastName hne).trans hlast⟩, rfl⟩
    obtain ⟨node, hfront⟩ := get?_front hpre hnode
    have hkeep := forall_getLast?_ne.2 hdeps front hf hpre
    exact ⟨node, hfront, by simpa [ManifestRecord.reaches] using hkeep, hvisible front hf hpre⟩

/-- `ManifestRecord.load` fails only for faults in the ignore files of directories around. -/
theorem isOk_load (h : PlainRepository disk home) (hroot : disk.Addresses root home) :
    (ManifestRecord.load disk root).isOk = true ↔ (layersAbove disk home).2 = [] := by
  obtain ⟨inside, hdir⟩ := Node.kindAt_eq_dir.1 h.dir
  obtain ⟨node, -, -, hwalk⟩ :=
    Walk.entries_of_addresses h.legal.wellFormed h.legal.top hroot hdir
      fun names _ => ManifestRecord.reaches names
  rw [ManifestRecord.load, ManifestRecord.discover, hwalk]
  by_cases hnone : (layersAbove disk home).2 = []
  · rw [if_pos (List.isEmpty_iff.2 hnone)]
    exact iff_of_true rfl hnone
  · rw [if_neg fun he => hnone (List.isEmpty_iff.1 he)]
    exact iff_of_false (by simp [Except.isOk, Except.toBool]) hnone

/-! ## Packages -/

/-- A directory whose manifest a walk from `home` comes to. -/
structure IsPackage (disk : Disk) (home parts : List String) : Prop where
  manifest : disk.root.kindAt (home ++ (parts ++ [Manifest.fileName])) = some .file
  outside : Manifest.dependencyDir ∉ parts
  visible : Visible disk home (parts ++ [Manifest.fileName])

theorem IsPackage.plainNames (h : PlainRepository disk home) (hp : IsPackage disk home parts) :
    PlainNames parts := by
  obtain ⟨content, hnode⟩ := Node.kindAt_eq_file.1 hp.manifest
  obtain ⟨hnames, hplain, hmarks⟩ := h.plainNames hnode
  exact ⟨fun n hn => hnames n (List.mem_append_left _ hn),
    fun n hn => hplain n (List.mem_append_left _ hn),
    fun n hn => hmarks n (List.mem_append_left _ hn)⟩

/-- **The packages of a repository** are the directories that are one by `IsPackage`. -/
theorem exists_package_iff (h : PlainRepository disk home) (hroot : disk.Addresses root home)
    {records : List ManifestRecord} (hload : ManifestRecord.load disk root = .ok records) :
    (∃ e ∈ Topology.build records, e.parts = parts) ↔ IsPackage disk home parts := by
  obtain ⟨found, hfound, rfl⟩ := ManifestRecord.load_eq_ok.1 hload
  have hsegments : ∀ names ∈ found,
      (ManifestRecord.ofNames disk root names).dirSegments = names.dropLast := by
    intro names hmem
    obtain ⟨hfile, -, -, -⟩ := (h.mem_discover_iff hroot hfound).1 hmem
    obtain ⟨content, hnode⟩ := Node.kindAt_eq_file.1 hfile
    have hplain := h.plainNames hnode
    rw [ManifestRecord.dirSegments, ManifestRecord.ofNames,
      relativeUnix_joinAll hroot.ne_empty hplain,
      Path.dropLast_segments_ofNames hplain.names]
  constructor
  · rintro ⟨e, he, rfl⟩
    obtain ⟨hmem, hparts⟩ := Topology.mem_records_of_mem_build he
    obtain ⟨names, hnames, hrecord⟩ := List.mem_map.1 hmem
    obtain ⟨hfile, hlast, hdeps, hvisible⟩ := (h.mem_discover_iff hroot hfound).1 hnames
    obtain ⟨front, rfl⟩ := List.getLast?_eq_some_iff.1 hlast
    have hfront : e.parts = front := by
      rw [← hparts, ← hrecord, hsegments _ hnames, List.dropLast_concat]
    rw [hfront]
    exact ⟨hfile, fun hd => hdeps (List.mem_append_left _ hd), hvisible⟩
  · intro hp
    have hmem : parts ++ [Manifest.fileName] ∈ found := by
      refine (h.mem_discover_iff hroot hfound).2 ⟨hp.manifest, by simp, fun hd => ?_, hp.visible⟩
      rcases List.mem_append.1 hd with hd | hd
      · exact hp.outside hd
      · exact absurd (List.mem_singleton.1 hd) (by decide)
    obtain ⟨e, he, hparts⟩ := Topology.exists_entry (List.mem_map_of_mem hmem)
    exact ⟨e, he, by rw [hparts, hsegments _ hmem, List.dropLast_concat]⟩

/-! ## Collected files -/

/-- The source file `name` in `dirs`, which a walk comes to. -/
structure SourceFile (disk : Disk) (home dirs : List String) (name : String) : Prop where
  file : disk.root.kindAt (home ++ (dirs ++ [name])) = some .file
  source : IsSource name
  outside : Manifest.dependencyDir ∉ dirs
  visible : Visible disk home (dirs ++ [name])

section
variable (h : PlainRepository disk home) (hroot : disk.Addresses root home)
  {records : List ManifestRecord} (hload : ManifestRecord.load disk root = .ok records)
  {e : TopologyEntry} (he : e ∈ Topology.build records)
include h hroot hload he

theorem isPackage : IsPackage disk home e.parts :=
  (h.exists_package_iff hroot hload).1 ⟨e, he, rfl⟩

theorem plainNames_parts : PlainNames e.parts :=
  (h.isPackage hroot hload he).plainNames h

theorem literalNames_excludes {x : List String} (hx : x ∈ e.excludes) :
    LiteralNames x ∧ x ≠ [] := by
  obtain ⟨⟨hpre, hne⟩, g, hg, rfl⟩ := Topology.exists_of_mem_excludes he hx
  refine ⟨(h.plainNames_parts hroot hload hg).literalNames, fun hnil => hne ?_⟩
  rw [hnil] at hpre ⊢
  exact (List.prefix_nil.1 hpre).symm

theorem joinAll_directory (names : List String) :
    Path.joinAll (directory root e) names = Path.joinAll root (e.parts ++ names) := by
  rw [PackageScope.directory_eq_joinAll hroot.ne_empty (h.plainNames_parts hroot hload he).names,
    Path.joinAll_append]

/-- The walk for sources turns back at the packages in `e.excludes`. -/
theorem mem_nested_iff (hnames : ∀ n ∈ names, Path.IsName n) :
    Path.components (Path.joinAll root names) ∈
        e.excludePaths.map (fun path => Path.components (Path.join root path)) ↔
      names ∈ e.excludes := by
  have hjoin : ∀ x ∈ e.excludes, (∀ n ∈ x, Path.IsName n) ∧
      Path.join root (Path.ofSegments x) = Path.joinAll root x := by
    intro x hx
    obtain ⟨hliteral, hne⟩ := h.literalNames_excludes hroot hload he hx
    exact ⟨hliteral.names, (Path.joinAll_eq_join hroot.ne_empty hne hliteral.names).symm⟩
  rw [TopologyEntry.excludePaths, List.map_map, List.mem_map]
  constructor
  · rintro ⟨x, hx, hsame⟩
    obtain ⟨hxnames, hpath⟩ := hjoin x hx
    rw [Function.comp_apply, hpath] at hsame
    rwa [← Path.components_joinAll_inj hroot.ne_empty hxnames hnames hsame]
  · exact fun hx => ⟨names, hx, by rw [Function.comp_apply, (hjoin names hx).2]⟩

theorem exists_dir : ∃ inside, disk.root.get? (home ++ e.parts) = some (.dir inside) := by
  have hfile := (h.isPackage hroot hload he).manifest
  rw [← List.append_assoc] at hfile
  exact Node.kindAt_eq_dir.1 (Node.kindAt_above (List.cons_ne_nil _ []) hfile)

/-- The directory of a package is addressed by the path that the walk for sources starts at
(`directory`). -/
theorem addresses_directory : disk.Addresses (directory root e) (home ++ e.parts) := by
  rw [PackageScope.directory_eq_joinAll hroot.ne_empty (h.plainNames_parts hroot hload he).names]
  exact hroot.inside h.legal.wellFormed (Node.kindAt_eq_dir.2 (h.exists_dir hroot hload he))

/-- `collect` fails for a package only for faults in the ignore files of directories around. -/
theorem isOk_collect :
    ((ofEntry e defaultSources).collect disk root e).isOk = true ↔
      (layersAbove disk (home ++ e.parts)).2 = [] := by
  obtain ⟨inside, hdir⟩ := h.exists_dir hroot hload he
  have hnames := h.plainNames_parts hroot hload he
  have hrules := PackageScope.rules_ofEntry hnames.literalNames hnames.unmarked_head
    fun x hx => h.literalNames_excludes hroot hload he hx
  obtain ⟨node, -, -, hwalk⟩ := Walk.entries_of_addresses h.legal.wellFormed h.legal.top
    (h.addresses_directory hroot hload he) hdir (reaches (directory root e)
      (e.excludePaths.map fun path => Path.components (Path.join root path)))
  rw [PackageScope.collect, hrules]
  dsimp only [bind, Except.bind]
  rw [hwalk]
  by_cases hnone : (layersAbove disk (home ++ e.parts)).2 = []
  · rw [if_pos (List.isEmpty_iff.2 hnone)]
    exact iff_of_true rfl hnone
  · rw [if_neg fun hemp => hnone (List.isEmpty_iff.1 hemp)]
    exact iff_of_false (by simp [Except.mapError, Except.isOk, Except.toBool]) hnone

/-- The walk for sources enters (`reaches`) neither directories of dependencies nor excluded
packages. -/
theorem reaches_iff (hnames : ∀ n ∈ names, Path.IsName n) {node : Node} :
    reaches (directory root e)
        (e.excludePaths.map fun path => Path.components (Path.join root path)) names node = true ↔
      (node.isDir = true → names.getLast? ≠ some Manifest.dependencyDir ∧
        e.parts ++ names ∉ e.excludes) := by
  have hparts := (h.plainNames_parts hroot hload he).names
  have hall : ∀ n ∈ e.parts ++ names, Path.IsName n := fun n hn =>
    (List.mem_append.1 hn).elim (hparts n) (hnames n)
  rw [reaches, h.joinAll_directory hroot hload he, Bool.not_eq_true',
    Bool.and_eq_false_imp]
  refine imp_congr_right fun _ => ?_
  rw [Bool.or_eq_false_iff, beq_eq_false_iff_ne, ← h.mem_nested_iff hroot hload he hall,
    List.contains_eq_mem, decide_eq_false_iff_not]

/-- **The files of the walk for sources**: nothing on the way is ruled out, nor a directory of
dependencies, nor one of `e.excludes`. -/
theorem mem_walk_iff {found : List WalkEntry}
    (hfound : Walk.entries disk (reaches (directory root e)
        (e.excludePaths.map fun path => Path.components (Path.join root path)))
        (directory root e) = .ok found) {w : WalkEntry} :
    w ∈ found ∧ w.node.isFile = true ↔ ∃ dirs name content, w = ⟨dirs ++ [name], .file content⟩ ∧
      disk.root.get? (home ++ (e.parts ++ (dirs ++ [name]))) = some (.file content) ∧
      Manifest.dependencyDir ∉ dirs ∧ (∀ front, front ≠ [] → front <+: dirs →
        e.parts ++ front ∉ e.excludes) ∧
      ∀ front, front ≠ [] → front <+: dirs ++ [name] → ¬RuledOut disk (home ++ (e.parts ++ front)) := by
  obtain ⟨inside, hdir⟩ := h.exists_dir hroot hload he
  have hkeep := fun (names : List String) (hn : ∀ n ∈ names, Path.IsName n) (node : Node) =>
    (h.reaches_iff hroot hload he hn : _ ↔ (node.isDir = true → _))
  generalize reaches (directory root e)
    (e.excludePaths.map fun path => Path.components (Path.join root path)) = keep at hfound hkeep
  rw [and_congr_left fun hfile => Walk.mem_entries_iff_of_isFile h.legal.wellFormed h.legal.top
    (h.addresses_directory hroot hload he) hdir hfound hfile]
  simp only [← List.append_assoc home e.parts]
  constructor
  · rintro ⟨⟨hne, hnode, hpass⟩, hfile⟩
    obtain ⟨names, node⟩ := w
    obtain ⟨dirs, name, rfl⟩ := List.eq_nil_or_concat names |>.resolve_left hne
    rw [List.concat_eq_append] at hnode hpass ⊢
    cases node with
    | dir entries => cases hfile
    | link target => cases hfile
    | file content =>
      have hnames : ∀ n ∈ dirs ++ [name], Path.IsName n := by
        rw [List.append_assoc] at hnode
        exact fun n hn => (h.plainNames hnode).names n (List.mem_append_right _ hn)
      -- on the way there are directories, which the walk enters
      have henters : ∀ front, front ≠ [] → front <+: dirs →
          front.getLast? ≠ some Manifest.dependencyDir ∧ e.parts ++ front ∉ e.excludes := by
        rintro front hf ⟨rest, rfl⟩
        have hpre : front <+: front ++ rest ++ [name] := ⟨rest ++ [name], by simp⟩
        obtain ⟨node, hfront, hk, -⟩ := hpass front hf hpre
        refine (hkeep front (fun n hn => hnames n (hpre.subset hn)) node).1 hk ?_
        have hbelow : disk.root.get? (home ++ e.parts ++ front ++ (rest ++ [name])) =
            some (.file content) := by simpa using hnode
        obtain ⟨entries, hentries⟩ := Node.exists_dir_of_get? (by simp) hbelow
        cases hfront.symm.trans hentries
        rfl
      exact ⟨dirs, name, content, rfl, hnode, forall_getLast?_ne.1 fun front hf hpre =>
        (henters front hf hpre).1, fun front hf hpre => (henters front hf hpre).2,
        fun front hf hpre => (hpass front hf hpre).choose_spec.2.2⟩
  · rintro ⟨dirs, name, content, rfl, hnode, hdeps, hexcludes, hvisible⟩
    refine ⟨⟨by simp, hnode, fun front hf hpre => ?_⟩, rfl⟩
    have hnames : ∀ n ∈ dirs ++ [name], Path.IsName n := by
      rw [List.append_assoc] at hnode
      exact fun n hn => (h.plainNames hnode).names n (List.mem_append_right _ hn)
    obtain ⟨node, hfront⟩ := get?_front hpre hnode
    refine ⟨node, hfront, (hkeep front (fun n hn => hnames n (hpre.subset hn)) node).2 fun hisdir => ?_,
      hvisible front hf hpre⟩
    have hdirs : front <+: dirs := by
      rcases List.prefix_concat_iff.1 hpre with rfl | hdirs
      · cases hfront.symm.trans hnode
        cases hisdir
      · exact hdirs
    exact ⟨forall_getLast?_ne.2 hdeps front hf hdirs, hexcludes front hf hdirs⟩

/-- The `rules` of a package take in the source files that it is the nearest package of. -/
theorem takesIn_iff {rules : List IgnoreRule}
    (hrules : (ofEntry e defaultSources).rules = .ok rules)
    {dirs : List String} {name : String} (hnames : ∀ n ∈ dirs ++ [name], Path.IsName n) :
    takesIn rules root (Path.joinAll root (dirs ++ [name])) = true ↔
      IsSource name ∧ Manifest.dependencyDir ∉ dirs ∧
        Nearest (Topology.build records) e dirs := by
  have hparts := h.plainNames_parts hroot hload he
  rw [PackageScope.takesIn_iff hparts.literalNames hparts.unmarked_head
    (fun x hx => h.literalNames_excludes hroot hload he hx) hrules hroot.ne_empty
    (by simp) hnames, PackageScope.nearest_iff he]
  simp only [List.dropLast_concat, List.getLast_concat]
  tauto

/-- **The files of a package** are those for which `SourceFile` holds and that it is the `Nearest`
package of. -/
theorem mem_collect_iff {paths : List String}
    (hpaths : (ofEntry e defaultSources).collect disk root e = .ok paths) {p : String} :
    p ∈ paths ↔ ∃ dirs name, p = Path.ofSegments (dirs ++ [name]) ∧ SourceFile disk home dirs name ∧
      Nearest (Topology.build records) e dirs := by
  obtain ⟨rules, found, hrules, hfound, rfl⟩ := PackageScope.collect_eq_ok hpaths
  simp only [List.mem_mergeSort, List.mem_map, List.mem_filter]
  constructor
  · rintro ⟨path, ⟨⟨w, hw, rfl⟩, htakes⟩, rfl⟩
    obtain ⟨more, name, content, rfl, hnode, -, -, hvisible⟩ :=
      (h.mem_walk_iff hroot hload he hfound).1 hw
    have hplain := h.plainNames hnode
    rw [← List.append_assoc] at hplain
    rw [h.joinAll_directory hroot hload he, ← List.append_assoc] at htakes ⊢
    obtain ⟨hsource, hdeps, hnear⟩ := (h.takesIn_iff hroot hload he hrules hplain.names).1 htakes
    refine ⟨e.parts ++ more, name, relativeUnix_joinAll hroot.ne_empty hplain,
      ⟨Node.kindAt_eq_file.2 ⟨content, by simpa using hnode⟩, hsource, hdeps, ?_⟩, hnear⟩
    -- up to the package the walk for manifests has come the same way
    intro front hf hfront
    rw [List.append_assoc] at hfront
    by_cases hshort : front <+: e.parts
    · exact (h.isPackage hroot hload he).visible front hf (hshort.trans (List.prefix_append _ _))
    · have hlong : e.parts.length ≤ front.length := by
        by_contra hlt
        exact hshort (List.prefix_of_prefix_length_le hfront (List.prefix_append _ _) (by omega))
      obtain ⟨mid, rfl⟩ := List.prefix_of_prefix_length_le (List.prefix_append _ _) hfront hlong
      have hmid : mid ≠ [] := by
        rintro rfl
        exact hshort ⟨[], by simp⟩
      exact hvisible mid hmid ((List.prefix_append_right_inj _).1 hfront)
  · rintro ⟨dirs, name, rfl, hsource, hnear⟩
    obtain ⟨more, rfl⟩ := hnear.1
    obtain ⟨content, hnode⟩ := Node.kindAt_eq_file.1 hsource.file
    have hplain := h.plainNames hnode
    have hbelow : ∀ {front rest : List String}, front <+: rest → e.parts ++ front <+: e.parts ++ rest :=
      (List.prefix_append_right_inj e.parts).2
    have hwalk := (h.mem_walk_iff hroot hload he hfound).2 ⟨more, name, content, rfl,
      by simpa using hnode, fun hd => hsource.outside (List.mem_append_right _ hd),
      fun front _ hpre hex => ((PackageScope.nearest_iff he).1 hnear).2 _ hex (hbelow hpre),
      fun front hf hpre => hsource.visible _ (by simp [hf])
        (by rw [List.append_assoc]; exact hbelow hpre)⟩
    refine ⟨_, ⟨⟨_, hwalk, rfl⟩, ?_⟩, ?_⟩
    · rw [h.joinAll_directory hroot hload he, ← List.append_assoc,
        h.takesIn_iff hroot hload he hrules hplain.names]
      exact ⟨hsource.source, hsource.outside, hnear⟩
    · rw [h.joinAll_directory hroot hload he, ← List.append_assoc]
      exact relativeUnix_joinAll hroot.ne_empty hplain

end

end PlainRepository

/-! ## The files of all packages -/

namespace PackageScope

/-- The files that the package of `e` returns; none where it fails. -/
def files (disk : Disk) (root : String) (e : TopologyEntry) : List String :=
  ((ofEntry e defaultSources).collect disk root e).toOption.getD []

/-- The files that the packages of a repository return, package by package. -/
def filesByPackage (disk : Disk) (root : String) : List (List String) :=
  match ManifestRecord.load disk root with
  | .error _ => []
  | .ok records => (Topology.build records).map (files disk root)

theorem mem_files {disk : Disk} {root : String} {e : TopologyEntry} {p : String} :
    p ∈ files disk root e ↔
      ∃ paths, (ofEntry e defaultSources).collect disk root e = .ok paths ∧ p ∈ paths := by
  unfold files
  cases (ofEntry e defaultSources).collect disk root e <;> simp [Except.toOption]

end PackageScope

namespace PlainRepository

open PackageScope (files filesByPackage mem_files)

variable {disk : Disk} {root : String} {home : List String} (h : PlainRepository disk home)
  (hroot : disk.Addresses root home)
include h hroot

/-- **No file is returned by two packages.** -/
theorem pairwise_disjoint :
    (filesByPackage disk root).Pairwise List.Disjoint := by
  unfold filesByPackage
  cases hload : ManifestRecord.load disk root with
  | error failure => exact .nil
  | ok records =>
    have hnear : ∀ e ∈ Topology.build records, ∀ p ∈ files disk root e,
        Nearest (Topology.build records) e (Path.segments p).dropLast := by
      intro e he p hp
      obtain ⟨paths, hpaths, hp⟩ := mem_files.1 hp
      obtain ⟨dirs, name, rfl, hsource, hnear⟩ := (h.mem_collect_iff hroot hload he hpaths).1 hp
      obtain ⟨content, hnode⟩ := Node.kindAt_eq_file.1 hsource.file
      rwa [Path.dropLast_segments_ofNames (h.plainNames hnode).names, List.dropLast_concat]
    have hparts := List.pairwise_map.1 (Topology.nested_build records).nodup
    refine List.pairwise_map.2 (hparts.imp_of_mem fun {e f} he hf hne p hpe hpf => hne ?_)
    exact congrArg _ ((hnear e he p hpe).unique he hf (hnear f hf p hpf))

/-- **The files of all packages** are those for which `SourceFile` holds, with a `Nearest` package
that does not fail. -/
theorem mem_filesByPackage_iff {records : List ManifestRecord}
    (hload : ManifestRecord.load disk root = .ok records) {p : String} :
    p ∈ (filesByPackage disk root).flatten ↔
      ∃ dirs name, p = Path.ofSegments (dirs ++ [name]) ∧ SourceFile disk home dirs name ∧
        ∃ e ∈ Topology.build records, Nearest (Topology.build records) e dirs ∧
          (layersAbove disk (home ++ e.parts)).2 = [] := by
  unfold filesByPackage
  simp only [hload, List.mem_flatten, List.mem_map, exists_exists_and_eq_and, mem_files]
  constructor
  · rintro ⟨e, he, paths, hpaths, hp⟩
    obtain ⟨dirs, name, rfl, hsource, hnear⟩ := (h.mem_collect_iff hroot hload he hpaths).1 hp
    exact ⟨dirs, name, rfl, hsource, e, he, hnear, (h.isOk_collect hroot hload he).1 (hpaths ▸ rfl)⟩
  · rintro ⟨dirs, name, rfl, hsource, e, he, hnear, hfaultless⟩
    have hok := (h.isOk_collect hroot hload he).2 hfaultless
    cases hpaths : (ofEntry e defaultSources).collect disk root e with
    | error failure => simp [hpaths, Except.isOk, Except.toBool] at hok
    | ok paths =>
      exact ⟨e, he, paths, hpaths, (h.mem_collect_iff hroot hload he hpaths).2
        ⟨dirs, name, rfl, hsource, hnear⟩⟩

end PlainRepository

end FlowMigration
