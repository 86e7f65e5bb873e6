import FlowMigration.Proofs.Package.Found
import FlowMigration.Proofs.Topology.Nesting
import FlowMigration.Proofs.Walk.Reach

/-!
# The owner of a file

Which package takes a source file in. A package is a folder of the repository (`package_folder`), so
the walk for its sources starts at that folder and the names of what it finds go on from the
package's own (`mem_collect`); a nested package is a folder that the walk does not enter.

* `collected_by_nearest_alone`: the packages collect disjoint lists of files, and every file is
  collected by its nearest enclosing package.
-/

namespace FlowMigration.PackageScope

variable {disk : Disk} {root : String}

/-- A folder of the repository at `root`: directories of plain names lead to it. -/
structure Folder (disk : Disk) (root : String) (parts : List String) : Prop where
  located : ∃ place, disk.locate root = .ok place ∧
    (parts ≠ [] → disk.root.kindAt (place ++ parts) = some .dir)
  legal : ∀ n ∈ parts, LegalName n
  plain : ∀ n ∈ parts, '\\' ∉ n.toList

theorem Folder.root_ne_empty {parts : List String} (h : Folder disk root parts) : root ≠ "" := by
  obtain ⟨place, hp, -⟩ := h.located
  exact (Disk.locate_eq_ok.1 hp).2.1

theorem directory_eq_joinAll {e : TopologyEntry} (hne : root ≠ "")
    (hnames : ∀ n ∈ e.parts, Path.IsName n) : directory root e = Path.joinAll root e.parts := by
  unfold directory TopologyEntry.isRoot TopologyEntry.dirPath
  by_cases hp : e.parts = []
  · simp [hp, Path.joinAll]
  · rw [if_neg (by simpa using hp), Path.joinAll_eq_join hne hp hnames]

theorem directory_eq {e : TopologyEntry} (h : Folder disk root e.parts) :
    directory root e = Path.joinAll root e.parts :=
  directory_eq_joinAll h.root_ne_empty fun n hn => (h.legal n hn).toIsName

theorem Folder.locate_directory {e : TopologyEntry} (h : Folder disk root e.parts)
    {place : List String} (hp : disk.locate root = .ok place) :
    disk.locate (directory root e) = .ok (place ++ e.parts) := by
  obtain ⟨place', hp', hdir⟩ := h.located
  obtain rfl : place = place' := Except.ok.inj (hp.symm.trans hp')
  rw [directory_eq h]
  refine Disk.locate_joinAll hp h.legal ?_
  by_cases hparts : e.parts = []
  · rw [hparts, List.append_nil]
    exact Disk.stands_of_locate hp
  · exact .inl (hdir hparts)

section
variable (hw : disk.root.WellFormed)
  (hplain : ∀ node, disk.node root = .ok node → node.Throughout NoBackslash)
include hw hplain

/-- The `names` that lead to something below the root of the repository. -/
theorem names_below_root {place names : List String} {node : Node}
    (hroot : disk.locate root = .ok place) (h : disk.root.get? (place ++ names) = some node) :
    (∀ n ∈ names, LegalName n) ∧ ∀ n ∈ names, '\\' ∉ n.toList := by
  rw [Node.get?_append] at h
  obtain ⟨top, htop, h⟩ := Option.bind_eq_some_iff.1 h
  have hnode : disk.node root = .ok top := by simp [Disk.node, hroot, htop]
  exact ⟨(hw.get? htop).legal h, (hplain top hnode).no_backslash h⟩

/-- **Every package is a `Folder` of the repository.** -/
theorem package_folder {records : List ManifestRecord}
    (hload : ManifestRecord.load disk root = .ok records) {e : TopologyEntry}
    (he : e ∈ Topology.build records) : Folder disk root e.parts := by
  obtain ⟨hmem, hdir⟩ := Topology.mem_records_of_mem_build he
  obtain ⟨walked, w, hwalk, hwmem, -, -, hrec⟩ := ManifestRecord.mem_load hload hmem
  obtain ⟨place, hplace⟩ := Walk.located_of_entries hwalk
  have hne : root ≠ "" := (Disk.locate_eq_ok.1 hplace).2.1
  have hnames : w.names = [] ∨ ∃ node, disk.root.get? (place ++ w.names) = some node := by
    rcases Walk.mem_entries hw hwalk hwmem with ⟨hnil, -⟩ | ⟨place', inside, hp', hin, hg, -⟩
    · exact .inl hnil
    · rw [hplace] at hp'
      cases hp'
      exact .inr ⟨w.node, by rw [Node.get?_append, hin, Option.bind_some, hg]⟩
  have hlegal : (∀ n ∈ w.names, LegalName n) ∧ ∀ n ∈ w.names, '\\' ∉ n.toList := by
    rcases hnames with hnil | ⟨node, hnode⟩
    · simp [hnil]
    · exact names_below_root hw hplain hplace hnode
  have hparts : e.parts = w.names.dropLast := by
    rw [← hdir, hrec, ManifestRecord.dirSegments, ManifestRecord.ofNames,
      Path.relativeUnix_joinAll hne (fun n hn => (hlegal.1 n hn).toIsName) hlegal.2,
      Path.dropLast_segments_ofNames fun n hn => (hlegal.1 n hn).toIsName]
  rw [hparts]
  refine ⟨⟨place, hplace, fun hd => ?_⟩, fun n hn => hlegal.1 n (List.dropLast_subset _ hn),
    fun n hn => hlegal.2 n (List.dropLast_subset _ hn)⟩
  have hwne : w.names ≠ [] := by rintro hnil; simp [hnil] at hd
  rcases hnames with hnil | ⟨node, hnode⟩
  · exact absurd hnil hwne
  · rw [← List.dropLast_append_getLast hwne, ← List.append_assoc] at hnode
    exact Node.kindAt_eq_dir.2 (Node.exists_dir_of_get? (List.cons_ne_nil _ _) hnode)

omit hplain in
/-- Only the root itself may be a file: a package elsewhere, with other `parts`, is in a
directory. -/
theorem parts_eq_nil_of_entry {e : TopologyEntry} (hfolder : Folder disk root e.parts) {node : Node}
    (hentry : disk.entry (directory root e) = .ok node) (hfile : node.isFile = true) :
    e.parts = [] := by
  obtain ⟨place, hplace, hdir⟩ := hfolder.located
  by_contra hparts
  obtain ⟨entries, hentries⟩ := Node.kindAt_eq_dir.1 (hdir hparts)
  cases node with
  | file content =>
    obtain ⟨here, hl, hfound⟩ := Disk.locate_of_entry hw hentry
    rw [hfolder.locate_directory hplace] at hl
    cases hl
    rw [hentries] at hfound
    cases hfound
  | link target => cases hfile
  | dir inside => cases hfile

/-- **What a walk through the package `e` finds** is written by the names of the package and names
that go on from there; every directory on the way is one that the walk enters. -/
theorem path_of_walked {e : TopologyEntry} (hfolder : Folder disk root e.parts)
    {keep : List String → Node → Bool} {found : List WalkEntry}
    (hwalk : Walk.entries disk keep (directory root e) = .ok found)
    {w : WalkEntry} (hwmem : w ∈ found) (hfile : w.node.isFile = true) :
    Path.relativeUnix root (Path.joinAll (directory root e) w.names) =
        Path.ofSegments (e.parts ++ w.names) ∧
      (∀ n ∈ e.parts ++ w.names, LegalName n) ∧ (w.names = [] → e.parts = []) ∧
      ∀ front, front ≠ [] → front <+: w.names.dropLast → ∃ entries,
        keep front (.dir entries) = true := by
  obtain ⟨place, hplace, -⟩ := hfolder.located
  have hne := hfolder.root_ne_empty
  have hstart := hfolder.locate_directory hplace
  have hpath : Path.joinAll (directory root e) w.names = Path.joinAll root (e.parts ++ w.names) := by
    rw [directory_eq hfolder, Path.joinAll_append]
  rw [hpath]
  rcases Walk.mem_entries hw hwalk hwmem with ⟨hnil, hentry⟩ | ⟨place', inside, hp', hin, hg, hkeep⟩
  · rw [hnil, parts_eq_nil_of_entry hw hfolder hentry hfile]
    exact ⟨Path.relativeUnix_joinAll hne (by simp) (by simp), by simp, fun _ => rfl,
      fun front hfront hpre => absurd (List.prefix_nil.1 hpre) hfront⟩
  · rw [hstart] at hp'
    cases hp'
    have hnode : disk.root.get? (place ++ (e.parts ++ w.names)) = some w.node := by
      rw [← List.append_assoc, Node.get?_append, hin, Option.bind_some, hg]
    obtain ⟨hlegal, hback⟩ := names_below_root hw hplain hplace hnode
    refine ⟨Path.relativeUnix_joinAll hne (fun n hn => (hlegal n hn).toIsName) hback,
      hlegal, fun hnil => ?_, Walk.enters_above hg hkeep⟩
    rw [hnil, Node.get?_nil] at hg
    rw [← Option.some.inj hg] at hfile
    cases hfile

/-- **A path that `scope` collects** is such a path. -/
theorem exists_names_of_mem_collect {scope : PackageScope} {e : TopologyEntry}
    (hfolder : Folder disk root e.parts) {paths : List String}
    (h : scope.collect disk root e = .ok paths) {p : String} (hp : p ∈ paths) :
    ∃ names, p = Path.ofSegments (e.parts ++ names) ∧ (∀ n ∈ e.parts ++ names, LegalName n) ∧
      (names = [] → e.parts = []) ∧
      ∀ front, front ≠ [] → front <+: names.dropLast → ∃ entries,
        reaches (directory root e)
          (e.excludePaths.map fun path => Path.components (Path.join root path)) front
          (.dir entries) = true := by
  obtain ⟨-, found, w, -, hwalk, hwmem, hfile, -, rfl⟩ := mem_collect h hp
  exact ⟨w.names, path_of_walked hw hplain hfolder hwalk hwmem hfile⟩

/-- The files that a walk through the package `e` finds have different paths: these are as different
as the names that lead to them. -/
theorem nodup_paths_of_walked {e : TopologyEntry} (hfolder : Folder disk root e.parts)
    {keep : List String → Node → Bool} {found : List WalkEntry}
    (hwalk : Walk.entries disk keep (directory root e) = .ok found) :
    (((found.filter (·.node.isFile)).map fun w =>
      Path.joinAll (directory root e) w.names).map (Path.relativeUnix root)).Nodup := by
  rw [List.map_map]
  refine List.Nodup.map_on (fun w hwmem w' hwmem' hsame => ?_)
    (((Walk.nodup_entries hw hwalk).of_map _).filter _)
  obtain ⟨hmem, hfile⟩ := List.mem_filter.1 hwmem
  obtain ⟨hmem', hfile'⟩ := List.mem_filter.1 hwmem'
  obtain ⟨hpath, hlegal, -⟩ := path_of_walked hw hplain hfolder hwalk hmem hfile
  obtain ⟨hpath', hlegal', -⟩ := path_of_walked hw hplain hfolder hwalk hmem' hfile'
  rw [Function.comp_apply, Function.comp_apply, hpath, hpath'] at hsame
  have hnames := Path.ofNames_inj (fun n hn => (hlegal n hn).toIsName)
    (fun n hn => (hlegal' n hn).toIsName) hsame
  exact List.inj_on_of_nodup_map (Walk.nodup_entries hw hwalk) hmem hmem'
    (List.append_cancel_left hnames)

/-- **No path is collected twice** for the package `e`. -/
theorem nodup_collect {scope : PackageScope} {e : TopologyEntry}
    (hfolder : Folder disk root e.parts) {paths : List String}
    (h : scope.collect disk root e = .ok paths) : paths.Nodup := by
  obtain ⟨rules, found, -, hwalk, rfl⟩ := collect_eq_ok h
  rw [(List.mergeSort_perm _ _).nodup_iff]
  exact (nodup_paths_of_walked hw hplain hfolder hwalk).sublist ((List.filter_sublist).map _)

/-- The package `e` is the nearest one around what `dirs` lead to. -/
def Nearest (topology : List TopologyEntry) (e : TopologyEntry) (dirs : List String) : Prop :=
  e.parts <+: dirs ∧ ∀ g ∈ topology, g.parts <+: dirs → g.parts.length ≤ e.parts.length

/-- **A file is collected by its `Nearest` package**, when all packages are folders. -/
theorem nearest_of_folders {records : List ManifestRecord}
    (hfolders : ∀ g ∈ Topology.build records, Folder disk root g.parts) {scope : PackageScope}
    {e : TopologyEntry} (he : e ∈ Topology.build records) {paths : List String}
    (h : scope.collect disk root e = .ok paths) {p : String} (hp : p ∈ paths) :
    Nearest (Topology.build records) e (Path.segments p).dropLast := by
  have hfolder := hfolders e he
  obtain ⟨names, rfl, hlegal, hself, hkeep⟩ :=
    exists_names_of_mem_collect hw hplain hfolder h hp
  rw [Path.dropLast_segments_ofNames fun n hn => (hlegal n hn).toIsName]
  have hdirs : (e.parts ++ names).dropLast = e.parts ++ names.dropLast := by
    by_cases hn : names = []
    · rw [hn, hself hn]
      rfl
    · exact List.dropLast_append_of_ne_nil hn
  rw [hdirs]
  refine ⟨List.prefix_append _ _, fun g hg hpre => ?_⟩
  by_contra hlong
  -- a nearer package would be one of those that the walk does not enter
  have hinner : e.parts <+: g.parts :=
    List.prefix_of_prefix_length_le (List.prefix_append _ _) hpre (by omega)
  obtain ⟨mid, hmid⟩ := hinner
  have hmidne : mid ≠ [] := by
    rintro rfl
    rw [List.append_nil] at hmid
    exact hlong (Nat.le_of_eq (congrArg List.length hmid.symm))
  have hmidpre : mid <+: names.dropLast := by
    rw [← hmid] at hpre
    exact (List.prefix_append_right_inj e.parts).1 hpre
  have hex : g.parts ∈ e.excludes :=
    Topology.mem_excludes he hg
      ⟨⟨mid, hmid⟩, fun heq => hlong (Nat.le_of_eq (congrArg List.length heq))⟩
  obtain ⟨entries, hk⟩ := hkeep mid hmidne hmidpre
  have hgfolder := hfolders g hg
  have hgne : g.parts ≠ [] := by
    rintro hnil
    rw [hnil] at hlong
    simp at hlong
  have hpath : Path.joinAll (directory root e) mid = Path.join root (Path.ofSegments g.parts) := by
    rw [directory_eq hfolder, ← Path.joinAll_append, hmid,
      Path.joinAll_eq_join hfolder.root_ne_empty hgne fun n hn => (hgfolder.legal n hn).toIsName]
  have hnested : Path.components (Path.joinAll (directory root e) mid) ∈
      e.excludePaths.map fun path => Path.components (Path.join root path) := by
    rw [hpath]
    exact List.mem_map_of_mem (List.mem_map_of_mem hex)
  simp [reaches, Node.isDir, hnested] at hk

/-- So it is by the packages of the `records` that are loaded from the same disk. -/
theorem nearest_of_mem_collect {records : List ManifestRecord}
    (hload : ManifestRecord.load disk root = .ok records) {scope : PackageScope} {e : TopologyEntry}
    (he : e ∈ Topology.build records) {paths : List String}
    (h : scope.collect disk root e = .ok paths) {p : String} (hp : p ∈ paths) :
    Nearest (Topology.build records) e (Path.segments p).dropLast :=
  nearest_of_folders hw hplain (fun _ hg => package_folder hw hplain hload hg) he h hp

/-! ## Main statement -/

omit hw hplain in
/-- Of two packages `e` and `f` that are `Nearest` around the same directories one is the other. -/
theorem Nearest.unique {records : List ManifestRecord} {e f : TopologyEntry} {dirs : List String}
    (he : e ∈ Topology.build records) (hf : f ∈ Topology.build records)
    (hne : Nearest (Topology.build records) e dirs) (hnf : Nearest (Topology.build records) f dirs) :
    e = f := by
  have hlen : e.parts.length = f.parts.length :=
    Nat.le_antisymm (hnf.2 e he hne.1) (hne.2 f hf hnf.1)
  have hparts : e.parts = f.parts :=
    (List.prefix_of_prefix_length_le hne.1 hnf.1 (Nat.le_of_eq hlen)).eq_of_length hlen
  exact List.inj_on_of_nodup_map (Topology.nested_build records).nodup he hf hparts

/-- **Every file has one owner**: the packages of a repository whose names hold no backslash collect
disjoint lists of files, and the package that collects a file is the `Nearest` one around it. -/
theorem collected_by_nearest_alone {records : List ManifestRecord}
    (hload : ManifestRecord.load disk root = .ok records) (sources : String) :
    (∀ e ∈ Topology.build records, ∀ f ∈ Topology.build records, e ≠ f →
      ∀ es fs, (ofEntry e sources).collect disk root e = .ok es →
        (ofEntry f sources).collect disk root f = .ok fs → es.Disjoint fs) ∧
      ∀ e ∈ Topology.build records, ∀ es, (ofEntry e sources).collect disk root e = .ok es →
        ∀ p ∈ es, Nearest (Topology.build records) e (Path.segments p).dropLast := by
  have hnear : ∀ e ∈ Topology.build records, ∀ es,
      (ofEntry e sources).collect disk root e = .ok es →
        ∀ p ∈ es, Nearest (Topology.build records) e (Path.segments p).dropLast :=
    fun e he es hes p hp => nearest_of_mem_collect hw hplain hload he hes hp
  refine ⟨fun e he f hf hne es fs hes hfs p hpe hpf => ?_, hnear⟩
  exact hne ((hnear e he es hes p hpe).unique he hf (hnear f hf fs hfs p hpf))

end

/-- A repository with a package inside the one at its root. -/
def nestedRepository : Disk :=
  ⟨.dir [("a", .dir [("package.json", .file ⟨#[123, 125]⟩), ("x.js", .file ⟨#[]⟩)]),
    ("package.json", .file ⟨#[123, 125]⟩), ("y.js", .file ⟨#[]⟩)], []⟩

/-- The inner file belongs to the inner package. -/
theorem collected_by_nearest_alone_nested :
    nestedRepository.root.WellFormed ∧
      (∀ node, nestedRepository.node "/" = .ok node → node.Throughout NoBackslash) ∧
      ∃ records, ManifestRecord.load nestedRepository "/" = .ok records ∧
        records.map (·.path) = ["a/package.json", "package.json"] ∧
        ∀ e ∈ Topology.build records, ∀ es,
          (ofEntry e defaultSources).collect nestedRepository "/" e = .ok es →
            ∀ p ∈ es, Nearest (Topology.build records) e (Path.segments p).dropLast := by
  have hw : nestedRepository.root.WellFormed := by decide +kernel
  have hplain : ∀ node, nestedRepository.node "/" = .ok node → node.Throughout NoBackslash :=
    fun _ => Disk.throughout_of_node (by decide +kernel)
  have hpaths : ((ManifestRecord.load nestedRepository "/").toOption.map (·.map (·.path))) =
      some ["a/package.json", "package.json"] := by decide +kernel
  obtain ⟨records, hload, hpaths⟩ := map_toOption_eq_some_iff.1 hpaths
  exact ⟨hw, hplain, records, hload, hpaths, (collected_by_nearest_alone hw hplain hload _).2⟩

end FlowMigration.PackageScope
