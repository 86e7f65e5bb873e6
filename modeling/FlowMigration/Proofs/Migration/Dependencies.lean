import FlowMigration.Proofs.Migration.Folders
import FlowMigration.Proofs.Package.Usage
import FlowMigration.Proofs.Registry

/-!
# The packages that a package imports

* `mem_internalDependencies`: an imported name is in `internalDependencies` if the first manifest
  that declares it has another path.
* `internalDependencies_of_plan`: the internal dependencies that a migration reports. Where no two
  manifests have one path, the owner of each is another manifest than that of the package.
* `not_internalDependencies_of_plan_of_overlaid`: elsewhere it need not be reported.
-/

namespace FlowMigration

theorem TextSet.mem_filter {set : TextSet} {keep : String → Bool} {text : String} :
    text ∈ toList (set.filter keep) ↔ text ∈ set.toList ∧ keep text = true := by
  unfold toList
  rw [Dict.mem_keys, Dict.mem_keys, Dict.get?_filter]
  by_cases hkeep : keep text = true
  · simp [hkeep]
  · simp [hkeep]

namespace Migration

/-- **An internal dependency** is one of the imported `names` whose owner has another path than
`path`. -/
theorem mem_internalDependencies {records : List ManifestRecord} {path : String} {names : TextSet}
    {name : String} (hne : name ≠ "") :
    name ∈ (internalDependencies (Registry.build records) path names).toList ↔
      name ∈ names.toList ∧
        ∃ owner, ManifestRecord.FirstToDeclare records name owner ∧ owner.path ≠ path := by
  rw [internalDependencies, TextSet.mem_filter, Option.any_eq_true]
  simp only [Registry.get?_build_eq_some hne, decide_eq_true_eq]

theorem empty_not_mem_internalDependencies (records : List ManifestRecord) (path : String)
    (names : TextSet) :
    "" ∉ (internalDependencies (Registry.build records) path names).toList := by
  rw [internalDependencies, TextSet.mem_filter, Registry.get?_build_empty]
  simp

/-! ## Main statement -/

/-- **The internal dependencies that are reported** of a package are the names of which a file that
could be scanned imports something (`ScannedFile.ImportsPackage`), and whose first declaration
(`ManifestRecord.FirstToDeclare`) is in a manifest with another `path`. Where the paths of the
manifests are distinct, that is another manifest than `v.entry.record`, the own one of the package.
They are distinct where no name in the repository holds a backslash. -/
theorem internalDependencies_of_plan {settings : Settings} {collaborators : Option Collaborators}
    {disk : Disk} {report : Report} {q : Progress}
    (h : plan settings collaborators { disk } = (.ok report, q)) :
    ∃ t : Trail, t.Of settings collaborators disk report q.disk ∧
      report.packages = t.visits.map (·.report t.registry) ∧
      (∀ v ∈ t.visits,
        "" ∉ (v.report t.registry).internalDependencies.toList ∧
        ∀ name, name ≠ "" →
          (name ∈ (v.report t.registry).internalDependencies.toList ↔
            (∃ file ∈ v.scan.files, file.ImportsPackage name) ∧
            ∃ owner, ManifestRecord.FirstToDeclare t.records name owner ∧
              owner.path ≠ (v.report t.registry).manifestPath)) ∧
      ((t.records.map (·.path)).Nodup → ∀ v ∈ t.visits, ∀ name, name ≠ "" →
        (name ∈ (v.report t.registry).internalDependencies.toList ↔
          (∃ file ∈ v.scan.files, file.ImportsPackage name) ∧
          ∃ owner, ManifestRecord.FirstToDeclare t.records name owner ∧
            owner ≠ v.entry.record)) ∧
      (disk.Legal → (∀ node, disk.node report.root = .ok node → node.Throughout NoBackslash) →
        (t.records.map (·.path)).Nodup) := by
  obtain ⟨t, ht, -⟩ := exists_trail_of_plan h
  have hexact : ∀ v ∈ t.visits, ∀ name, name ≠ "" →
      (name ∈ (v.report t.registry).internalDependencies.toList ↔
        (∃ file ∈ v.scan.files, file.ImportsPackage name) ∧
        ∃ owner, ManifestRecord.FirstToDeclare t.records name owner ∧
          owner.path ≠ (v.report t.registry).manifestPath) := by
    intro v hv name hne
    have himports : name ∈ v.scan.usage.packageNames.toList ↔
        ∃ file ∈ v.scan.files, file.ImportsPackage name := by
      rw [(ht.seen v hv).usage_eq, Usage.mem_packageNames_ofScan]
    rw [← himports]
    exact mem_internalDependencies hne
  refine ⟨t, ht, ht.packages, fun v hv => ⟨?_, hexact v hv⟩, ?_, ?_⟩
  · exact empty_not_mem_internalDependencies t.records _ _
  · intro hnodup v hv name hne
    rw [hexact v hv name hne]
    refine and_congr_right fun _ => exists_congr fun owner => and_congr_right fun howner => ?_
    -- of distinct paths the own one is that of the own manifest alone
    have hown : v.entry.record ∈ t.records := ht.record_mem v hv
    constructor
    · intro hpath hsame
      exact hpath (congrArg (·.path) hsame)
    · intro hother hpath
      exact hother (List.inj_on_of_nodup_map hnodup howner.mem hown hpath)
  · intro hlegal hplain
    have hroot : report.root = t.root := by rw [ht.reported]
    exact ht.nodup_paths hlegal (hroot ▸ hplain)

/-- A package of which another one imports a file. -/
def importing : Disk :=
  ⟨.dir [("a", .dir [("package.json", .file "\x7b\"name\":\"n\"\x7d".toUTF8)]),
    ("b", .dir [("package.json", .file "\x7b\x7d".toUTF8),
      ("x.js", .file "import 'n/y'".toUTF8)])], []⟩

/-- The import is found, and nothing else. -/
theorem internalDependencies_of_plan_importing : ∃ report q t,
    plan { root := some "/" } none { disk := importing } = (.ok report, q) ∧
      report.packages.map (·.internalDependencies.toList) = [[], ["n"]] ∧
      Trail.Of t { root := some "/" } none importing report q.disk ∧
      (t.records.map (·.path)).Nodup ∧
      ∀ v ∈ t.visits, ∀ name, name ≠ "" →
        (name ∈ (v.report t.registry).internalDependencies.toList ↔
          (∃ file ∈ v.scan.files, file.ImportsPackage name) ∧
          ∃ owner, ManifestRecord.FirstToDeclare t.records name owner ∧
            owner ≠ v.entry.record) := by
  have hfacts : (plan { root := some "/" } none { disk := importing }).1.toOption.map
      (fun report => (report.root, report.packages.map (·.internalDependencies.toList))) =
        some ("/", [[], ["n"]]) := by decide +kernel
  have hlegal : importing.Legal := by decide +kernel
  have hplain : ∀ node, importing.node "/" = .ok node → node.Throughout NoBackslash :=
    fun _ => Disk.throughout_of_node (by decide +kernel)
  obtain ⟨report, q, hrun, hfields⟩ := exists_of_map_toOption hfacts
  obtain ⟨hroot, hpackages⟩ := Prod.mk.inj hfields
  obtain ⟨t, ht, -, -, hexact, hdistinct⟩ := internalDependencies_of_plan hrun
  have hnodup := hdistinct hlegal (hroot ▸ hplain)
  exact ⟨report, q, t, hrun, hpackages, ht, hnodup, hexact hnodup⟩

/-- Two manifests with the path `a/b/package.json`: the directory of the second one is called `a\b`.
The package that they are for imports the name that the first one declares. -/
def overlaid : Disk :=
  ⟨.dir [("a", .dir [("b", .dir [("package.json", .file "\x7b\"name\":\"n\"\x7d".toUTF8),
      ("x.js", .file "import 'n'".toUTF8)])]),
    ("a\\b", .dir [("package.json", .file "\x7b\"name\":\"m\"\x7d".toUTF8)])], []⟩

/-- The configuration of `overlaid` is made up, and then both manifests are found. -/
theorem records_overlaid {t : Trail} {report : Report} {last : Disk}
    (h : t.Of { root := some "/" } none overlaid report last) :
    t.records.map (fun r => (r.path, r.name?)) =
      [("a/b/package.json", some "n"), ("a/b/package.json", some "m")] := by
  have hroot : Settings.findRoot { root := some "/" } overlaid = .ok "/" := by decide +kernel
  have hready : ConfigStore.Ready overlaid "/" [] :=
    ⟨by decide +kernel, by decide +kernel, ⟨by decide +kernel, .inl (by decide +kernel)⟩,
      Option.isNone_iff_eq_none.1 (by decide +kernel)⟩
  have hnone : overlaid.root.get? ([] ++ [ConfigStore.fileName]) = none :=
    Option.isNone_iff_eq_none.1 (by decide +kernel)
  have hload : (ManifestRecord.load (overlaid.withFile ([] ++ [ConfigStore.fileName])
        (ConfigStore.text ⟨"/flow-ts-config.json", .fresh true true⟩).toUTF8) "/").toOption.map
      (fun records => records.map fun r => (r.path, r.name?)) =
        some [("a/b/package.json", some "n"), ("a/b/package.json", some "m")] := by decide +kernel
  have hfound : t.root = "/" := Except.ok.inj (h.root.symm.trans hroot)
  obtain ⟨p, mid, hopen, hp, hmid⟩ := h.opened
  rw [hfound] at hopen
  have hruns := ConfigStore.runs_openAt_absent hready hnone (.fresh true true)
  rw [← hp] at hruns
  obtain ⟨-, hdisk⟩ := hruns.of_eq hopen
  have hrecords := h.records
  rw [hfound, ← hmid, ← hdisk, hp] at hrecords
  obtain ⟨records, hrecords', hfields⟩ := map_toOption_eq_some_iff.1 hload
  obtain rfl : t.records = records := Except.ok.inj (hrecords.symm.trans hrecords')
  exact hfields

/-- **A dependency is passed over** where another manifest has the path of the own one: the name
that `overlaid` imports belongs to a manifest that is not that of the package, and is not reported.
-/
theorem not_internalDependencies_of_plan_of_overlaid :
    ¬∀ (settings : Settings) (collaborators : Option Collaborators) (disk : Disk) (report : Report)
      (q : Progress) (t : Trail), disk.Legal →
      plan settings collaborators { disk } = (.ok report, q) →
      t.Of settings collaborators disk report q.disk → ∀ v ∈ t.visits, ∀ name, name ≠ "" →
      (name ∈ (v.report t.registry).internalDependencies.toList ↔
        (∃ file ∈ v.scan.files, file.ImportsPackage name) ∧
        ∃ owner, ManifestRecord.FirstToDeclare t.records name owner ∧
          owner ≠ v.entry.record) := by
  intro h
  have hlegal : overlaid.Legal := by decide +kernel
  have hfacts : (plan { root := some "/" } none { disk := overlaid }).1.toOption.map (fun report =>
      report.packages.map fun p =>
        (p.name, p.usage.packageNames.toList, p.internalDependencies.toList)) =
      some [(some "m", ["n"], [])] := by decide +kernel
  obtain ⟨report, q, hrun, hpackages⟩ := exists_of_map_toOption hfacts
  obtain ⟨t, ht, -⟩ := exists_trail_of_plan hrun
  rw [ht.packages, List.map_map] at hpackages
  obtain ⟨v, rest, hvisits, hfields, -⟩ := List.map_eq_cons_iff.1 hpackages
  have hv : v ∈ t.visits := by rw [hvisits]; exact List.mem_cons_self
  obtain ⟨hname, hrest⟩ := Prod.mk.inj hfields
  obtain ⟨hnames, hnone⟩ := Prod.mk.inj hrest
  -- the package is that of the second manifest, and one of its files imports the name
  have hown : v.entry.record.name? = some "m" := hname
  have himports : ∃ file ∈ v.scan.files, file.ImportsPackage "n" := by
    rw [← Usage.mem_packageNames_ofScan, ← (ht.seen v hv).usage_eq]
    show "n" ∈ (v.report t.registry).usage.packageNames.toList
    rw [hnames]
    exact List.mem_singleton_self "n"
  -- the name belongs to the first one
  have hrecords := records_overlaid ht
  obtain ⟨first, more, hsplit, hfirst, -⟩ := List.map_eq_cons_iff.1 hrecords
  have hdeclares : first.Declares "n" :=
    (ManifestRecord.declares_iff (by decide)).2 (Prod.mk.inj hfirst).2
  have howner : ManifestRecord.FirstToDeclare t.records "n" first :=
    ⟨[], more, hsplit, hdeclares, by simp⟩
  have hother : first ≠ v.entry.record := by
    rintro rfl
    rw [(Prod.mk.inj hfirst).2] at hown
    exact absurd (Option.some.inj hown) (by decide)
  have hmem := (h _ _ _ report q t hlegal hrun ht v hv "n" (by decide)).2
    ⟨himports, first, howner, hother⟩
  rw [hnone] at hmem
  cases hmem

end Migration

end FlowMigration
