import FlowMigration.Proofs.Package.Denotation
import FlowMigration.Proofs.Package.Places
import FlowMigration.Proofs.Walk.Pruned

/-!
# The files of a package

What a package of plain names collects, against the full walk of its directory: the walk for sources
turns back at directories of dependencies and at nested packages, and this makes no difference.

* `looksAt_of_inScope`: the walk for sources turns back nowhere on the way to a file of the scope.
* `collect_eq_takenFrom`: a package collects what its rules take in of the full walk.
* `collect_scope`: these are the files of its scope, in increasing order.
-/

namespace FlowMigration.PackageScope

open Walk (everything)

variable {disk : Disk} {root : String}

/-! ## Plain names -/

section
variable (hw : disk.root.WellFormed)
  (hplain : ∀ node, disk.node root = .ok node → node.Throughout PlainEntries)
include hw hplain

omit hw in
theorem noBackslash_of_plain : ∀ node, disk.node root = .ok node → node.Throughout NoBackslash :=
  fun node hnode => (hplain node hnode).imp fun _ hentries entry hentry hback =>
    (hentries entry hentry).1 '\\' hback (by decide)

theorem Folder.plainNames {parts : List String} (h : Folder disk root parts) : PlainNames parts := by
  obtain ⟨place, hplace, hdir⟩ := h.located
  by_cases hnil : parts = []
  · subst hnil
    exact ⟨by simp, by simp, by simp⟩
  · obtain ⟨inside, hinside⟩ := Node.kindAt_eq_dir.1 (hdir hnil)
    rw [Node.get?_append] at hinside
    obtain ⟨top, htop, hparts⟩ := Option.bind_eq_some_iff.1 hinside
    have hnode : disk.node root = .ok top := by simp [Disk.node, hplace, htop]
    exact plainNames_of_get? (hw.get? htop) (hplain top hnode) hparts

variable {records : List ManifestRecord} (hload : ManifestRecord.load disk root = .ok records)
  {e : TopologyEntry} (he : e ∈ Topology.build records)
include hload he

theorem folder : Folder disk root e.parts :=
  package_folder hw (noBackslash_of_plain hplain) hload he

theorem plainNames_parts : PlainNames e.parts :=
  (folder hw hplain hload he).plainNames hw hplain

end

/-! ## The walk for sources -/

/-- What the walk for the sources of the package `e` looks at. -/
def looksAt (root : String) (e : TopologyEntry) : List String → Node → Bool :=
  reaches (directory root e)
    (e.excludePaths.map fun path => Path.components (Path.join root path))

/-- The files among the `entries` of a walk that `rules` take in, in increasing order. -/
def takenFrom (rules : List IgnoreRule) (root start : String) (entries : List WalkEntry) :
    List String :=
  ((((entries.filter (·.node.isFile)).map fun w => Path.joinAll start w.names).filter
    (takesIn rules root)).map (Path.relativeUnix root)).mergeSort (· ≤ ·)

theorem mem_takenFrom {rules : List IgnoreRule} {root start p : String}
    {entries : List WalkEntry} : p ∈ takenFrom rules root start entries ↔
      ∃ w ∈ entries, w.node.isFile = true ∧
        takesIn rules root (Path.joinAll start w.names) = true ∧
          Path.relativeUnix root (Path.joinAll start w.names) = p := by
  simp only [takenFrom, List.mem_mergeSort, List.mem_map, List.mem_filter]
  constructor
  · rintro ⟨path, ⟨⟨w, ⟨hw, hfile⟩, rfl⟩, htakes⟩, rfl⟩
    exact ⟨w, hw, hfile, htakes, rfl⟩
  · rintro ⟨w, hw, hfile, htakes, rfl⟩
    exact ⟨_, ⟨⟨w, ⟨hw, hfile⟩, rfl⟩, htakes⟩, rfl⟩

theorem pairwise_takenFrom (rules : List IgnoreRule) (root start : String)
    (entries : List WalkEntry) : (takenFrom rules root start entries).Pairwise (· ≤ ·) := by
  refine (List.pairwise_mergeSort ?_ ?_ _).imp of_decide_eq_true
  · intro a b c hab hbc
    exact decide_eq_true (String.le_trans (of_decide_eq_true hab) (of_decide_eq_true hbc))
  · intro a b
    simpa using String.le_total a b

section
variable (hw : disk.root.WellFormed)
  (hplain : ∀ node, disk.node root = .ok node → node.Throughout PlainEntries)
  {records : List ManifestRecord} (hload : ManifestRecord.load disk root = .ok records)
  {e : TopologyEntry} (he : e ∈ Topology.build records)
include hw hplain hload he

/-- **The walk for sources turns back nowhere** on the way to a file of the scope: it `looksAt` what
is there. -/
theorem looksAt_of_inScope {dirs front : List String} {name : String} {node : Node}
    (hscope : InScope records e (e.parts ++ dirs) name)
    (hnames : ∀ n ∈ e.parts ++ dirs, Path.IsName n) (hfront : front <+: dirs) :
    looksAt root e front node = true := by
  have hfolder := folder hw hplain hload he
  have hbelow : e.parts ++ front <+: e.parts ++ dirs := (List.prefix_append_right_inj _).2 hfront
  rw [looksAt, reaches, Bool.not_eq_true', Bool.and_eq_false_imp]
  rintro -
  rw [Bool.or_eq_false_iff, beq_eq_false_iff_ne, List.contains_eq_mem, decide_eq_false_iff_not]
  constructor
  · intro hlast
    refine hscope.installed (List.mem_append_right _ ?_)
    exact hfront.subset (List.mem_of_getLast? hlast)
  · intro hmem
    obtain ⟨path, hpath, hsame⟩ := List.mem_map.1 hmem
    obtain ⟨x, hx, rfl⟩ := List.mem_map.1 hpath
    obtain ⟨hliteral, hne⟩ := literal_excludes he
      (fun _ hg _ => (plainNames_parts hw hplain hload hg).literalNames) x hx
    rw [← Path.joinAll_eq_join hfolder.root_ne_empty hne hliteral.names, directory_eq hfolder,
      ← Path.joinAll_append] at hsame
    have hparts := Path.components_joinAll_inj hfolder.root_ne_empty hliteral.names
      (fun n hn => hnames n (hbelow.subset hn)) hsame
    obtain ⟨hinside, g, hg, rfl⟩ := Topology.exists_of_mem_excludes he hx
    exact hscope.own g hg hinside (hparts ▸ hbelow)

theorem rules_of_plain : (ofEntry e defaultSources).rules =
    .ok (sourceRule e.parts :: dependencyRule :: e.excludes.map excludeRule) :=
  have hparts := plainNames_parts hw hplain hload he
  rules_ofEntry hparts.literalNames hparts.unmarked_head (literal_excludes he fun _ hg _ =>
    (plainNames_parts hw hplain hload hg).literalNames)

theorem not_takesIn_root (hnil : e.parts = []) {rules : List IgnoreRule}
    (hrules : (ofEntry e defaultSources).rules = .ok rules) : takesIn rules root root = false := by
  have hbelow : belowRoot root root = "" := by
    simp [belowRoot, ← String.length_toList]
  rw [rules_of_plain hw hplain hload he, hnil] at hrules
  obtain rfl := Except.ok.inj hrules
  have hnegated : ∀ r ∈ dependencyRule :: e.excludes.map excludeRule, r.negated = true := by
    simp [dependencyRule, excludeRule]
  rw [takesIn, hbelow, decide_eq_false_iff_not, decide_of_negated rfl hnegated]
  rintro ⟨happlies, -⟩
  have hnone : (sourceRule []).applies "" false = false := by decide +kernel
  rw [hnone] at happlies
  cases happlies

/-- Of the files that the `full` walk finds, the rules take in those that are `InScope`. -/
theorem takesIn_iff_of_walked {full : List WalkEntry}
    (hfull : Walk.entries disk everything (directory root e) = .ok full) {rules : List IgnoreRule}
    (hrules : (ofEntry e defaultSources).rules = .ok rules) {w : WalkEntry} (hwmem : w ∈ full)
    (hfile : w.node.isFile = true) :
    takesIn rules root (Path.joinAll (directory root e) w.names) = true ↔
      ∃ dirs name, w.names = dirs ++ [name] ∧ InScope records e (e.parts ++ dirs) name := by
  have hfolder := folder hw hplain hload he
  obtain ⟨-, hlegal, hself, -⟩ :=
    path_of_walked hw (noBackslash_of_plain hplain) hfolder hfull hwmem hfile
  rw [directory_eq hfolder, ← Path.joinAll_append]
  obtain hnil | ⟨dirs, name, hnames⟩ := List.eq_nil_or_concat w.names
  · refine iff_of_false ?_ ?_
    · rw [hnil, hself hnil, List.append_nil]
      exact Bool.eq_false_iff.1 (not_takesIn_root hw hplain hload he (hself hnil) hrules)
    · rintro ⟨dirs, name, hnames, -⟩
      rw [hnil] at hnames
      exact List.cons_ne_nil _ _ (List.append_eq_nil_iff.1 hnames.symm).2
  · rw [List.concat_eq_append] at hnames
    rw [hnames, ← List.append_assoc] at hlegal ⊢
    rw [takesIn_iff_inScope he (fun g hg _ => (plainNames_parts hw hplain hload hg).literalNames)
      (plainNames_parts hw hplain hload he).unmarked_head hrules hfolder.root_ne_empty
      fun n hn => (hlegal n hn).toIsName]
    constructor
    · exact fun hscope => ⟨dirs, name, rfl, hscope⟩
    · rintro ⟨dirs', name', hsame, hscope⟩
      obtain ⟨rfl, hname⟩ := List.append_inj' hsame rfl
      rwa [List.singleton_inj.1 hname]

/-- **A file that is taken in** is one that the walk for sources has `found`. -/
theorem mem_of_takesIn {found full : List WalkEntry}
    (hfound : Walk.entries disk (looksAt root e) (directory root e) = .ok found)
    (hfull : Walk.entries disk everything (directory root e) = .ok full) {rules : List IgnoreRule}
    (hrules : (ofEntry e defaultSources).rules = .ok rules) {w : WalkEntry} (hwmem : w ∈ full)
    (hfile : w.node.isFile = true)
    (htakes : takesIn rules root (Path.joinAll (directory root e) w.names) = true) : w ∈ found := by
  obtain ⟨dirs, name, hnames, hscope⟩ :=
    (takesIn_iff_of_walked hw hplain hload he hfull hrules hwmem hfile).1 htakes
  obtain ⟨-, hlegal, -⟩ := path_of_walked hw (noBackslash_of_plain hplain)
    (folder hw hplain hload he) hfull hwmem hfile
  refine (Walk.mem_entries_iff_full hw hfound hfull).2 ⟨hwmem, fun x hx _ hpre => ?_⟩
  rw [hnames] at hpre
  rcases List.prefix_concat_iff.1 hpre with hself | hdirs
  · -- the file itself
    have hsame : x = w := List.inj_on_of_nodup_map (Walk.nodup_entries hw hfull) hx hwmem
      (hself.trans hnames.symm)
    have hleaf : x.node.isDir = false := by
      rw [hsame]
      cases hnode : w.node <;> simp [hnode, Node.isFile, Node.isDir] at hfile ⊢
    rw [looksAt, reaches, hleaf]
    rfl
  · refine looksAt_of_inScope hw hplain hload he hscope (fun n hn => ?_) hdirs
    refine (hlegal n ?_).toIsName
    rw [hnames, ← List.append_assoc]
    exact List.mem_append_left _ hn

/-- **Turning back makes no difference**: a package collects what its rules take in of the `full`
walk of its directory. -/
theorem collect_eq_takenFrom {paths : List String}
    (hpaths : (ofEntry e defaultSources).collect disk root e = .ok paths) :
    ∃ rules full, (ofEntry e defaultSources).rules = .ok rules ∧
      Walk.entries disk everything (directory root e) = .ok full ∧ paths.Nodup ∧
        paths = takenFrom rules root (directory root e) full := by
  have hback := noBackslash_of_plain hplain
  have hfolder := folder hw hplain hload he
  have hnodup := nodup_collect hw hback hfolder hpaths
  obtain ⟨rules, found, hrules, hfound, hsame⟩ := collect_eq_ok hpaths
  replace hsame : paths = takenFrom rules root (directory root e) found := hsame
  have hok := Walk.isOk_entries_full disk (looksAt root e) (directory root e)
  rw [looksAt, hfound] at hok
  cases hfull : Walk.entries disk everything (directory root e) with
  | error error =>
    rw [hfull] at hok
    cases hok
  | ok full =>
    refine ⟨rules, full, hrules, rfl, hnodup, ?_⟩
    have hnodup' : (takenFrom rules root (directory root e) full).Nodup := by
      rw [takenFrom, (List.mergeSort_perm _ _).nodup_iff]
      exact (nodup_paths_of_walked hw hback hfolder hfull).sublist (List.filter_sublist.map _)
    rw [hsame] at hnodup ⊢
    refine List.Perm.eq_of_pairwise (fun _ _ _ _ => String.le_antisymm) (pairwise_takenFrom ..)
      (pairwise_takenFrom ..) ((List.perm_ext_iff_of_nodup hnodup hnodup').2 fun p => ?_)
    rw [mem_takenFrom, mem_takenFrom]
    constructor
    · rintro ⟨w, hwmem, hw'⟩
      exact ⟨w, ((Walk.mem_entries_iff_full hw hfound hfull).1 hwmem).1, hw'⟩
    · rintro ⟨w, hwmem, hfile, htakes, hp⟩
      exact ⟨w, mem_of_takesIn hw hplain hload he hfound hfull hrules hwmem hfile htakes, hfile,
        htakes, hp⟩

omit hw hplain hload he in
/-- A package whose globs can be read fails only where its walk fails. -/
theorem isOk_collect {rules : List IgnoreRule}
    (hrules : (ofEntry e defaultSources).rules = .ok rules) :
    ((ofEntry e defaultSources).collect disk root e).isOk =
      (Walk.entries disk (looksAt root e) (directory root e)).isOk := by
  rw [collect, hrules, looksAt]
  dsimp only [bind, Except.bind]
  cases Walk.entries disk (reaches (directory root e)
    (e.excludePaths.map fun path => Path.components (Path.join root path))) (directory root e) <;> rfl

/-- **The files of a package**: `collect` comes to its `paths` whenever the walk for them succeeds,
and these are, each once and in increasing order, the files that are `InScope` among those that the
`full` walk of its directory finds; they are the ones that its `rules` take in. -/
theorem collect_scope :
    ((ofEntry e defaultSources).collect disk root e).isOk =
        (Walk.entries disk (looksAt root e) (directory root e)).isOk ∧
      ∀ paths, (ofEntry e defaultSources).collect disk root e = .ok paths →
        ∃ rules full, (ofEntry e defaultSources).rules = .ok rules ∧
          Walk.entries disk everything (directory root e) = .ok full ∧
          paths.Pairwise (· < ·) ∧
          (∀ p, p ∈ paths ↔ ∃ w ∈ full, w.node.isFile = true ∧
            (∃ dirs name, w.names = dirs ++ [name] ∧ InScope records e (e.parts ++ dirs) name) ∧
              p = Path.ofSegments (e.parts ++ w.names)) ∧
          paths = takenFrom rules root (directory root e) full := by
  refine ⟨isOk_collect (rules_of_plain hw hplain hload he), fun paths hpaths => ?_⟩
  obtain ⟨rules, full, hrules, hfull, hnodup, hsame⟩ :=
    collect_eq_takenFrom hw hplain hload he hpaths
  have hsorted : paths.Pairwise (· ≤ ·) := hsame ▸ pairwise_takenFrom ..
  refine ⟨rules, full, hrules, hfull, ?_, fun p => ?_, hsame⟩
  · refine (hsorted.and hnodup).imp fun ⟨hle, hne⟩ => ?_
    exact Decidable.by_contra fun hlt => hne (String.le_antisymm hle (String.not_lt.1 hlt))
  · rw [hsame, mem_takenFrom]
    refine exists_congr fun w => and_congr_right fun hwmem => and_congr_right fun hfile => ?_
    rw [takesIn_iff_of_walked hw hplain hload he hfull hrules hwmem hfile,
      (path_of_walked hw (noBackslash_of_plain hplain) (folder hw hplain hload he) hfull hwmem
        hfile).1]
    exact and_congr_right fun _ => eq_comm

end

/-- A repository with a nested package, dependencies and a file that is ruled out. -/
def mixedRepository : Disk :=
  ⟨.dir [(".gitignore", .file "out.js\n".toUTF8),
    ("lib", .dir [(".js", .file .empty), ("c.ts", .file .empty), ("out.js", .file .empty)]),
    ("node_modules", .dir [("m.js", .file .empty)]),
    ("package.json", .file "\x7b\x7d".toUTF8),
    ("sub", .dir [("package.json", .file "\x7b\x7d".toUTF8), ("x.js", .file .empty)])], []⟩

theorem collect_scope_mixedRepository :
    mixedRepository.root.WellFormed ∧
      (∀ node, mixedRepository.node "/" = .ok node → node.Throughout PlainEntries) ∧
      ∃ records, ManifestRecord.load mixedRepository "/" = .ok records ∧
        ∃ e ∈ Topology.build records,
          (ofEntry e defaultSources).collect mixedRepository "/" e = .ok ["lib/.js"] ∧
            ∃ rules full, (ofEntry e defaultSources).rules = .ok rules ∧
              Walk.entries mixedRepository everything (directory "/" e) = .ok full ∧
              ["lib/.js"] = takenFrom rules "/" (directory "/" e) full := by
  have hw : mixedRepository.root.WellFormed := by decide +kernel
  have hplain : ∀ node, mixedRepository.node "/" = .ok node → node.Throughout PlainEntries :=
    fun _ => Disk.throughout_of_node (by decide +kernel)
  have hfiles : (ManifestRecord.load mixedRepository "/").toOption.any (fun records =>
      (Topology.build records).any fun e =>
        ((ofEntry e defaultSources).collect mixedRepository "/" e).toOption =
          some ["lib/.js"]) = true := by decide +kernel
  simp only [any_toOption_iff, List.any_eq_true, decide_eq_true_eq, toOption_eq_some_iff] at hfiles
  obtain ⟨records, hload, e, he, hpaths⟩ := hfiles
  obtain ⟨rules, full, hrules, hfull, -, -, hsame⟩ := (collect_scope hw hplain hload he).2 _ hpaths
  exact ⟨hw, hplain, records, hload, e, he, hpaths, rules, full, hrules, hfull, hsame⟩

end FlowMigration.PackageScope
