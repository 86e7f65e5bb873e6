import FlowMigration.Proofs.Migration.Dependencies

/-!
# Packages that import their own names

A package that imports the name it declares does not depend on itself, as the owner of that name is
left out of its dependencies. The owner is told by its path, so this fails where an earlier manifest
has taken the name.

* `Trail.Of.conflict_of_owner`: the name of a package that has another owner was taken.
* `own_name_of_plan`: a package depends on its own name if it imports it and the name was taken.
* `not_own_name_of_plan_of_taken`: that can happen.
-/

namespace FlowMigration

namespace Trail

variable {t : Trail} {settings : Settings} {collaborators : Option Collaborators}
  {disk last : Disk} {report : Report}

/-- **A taken name**: what the package of `v` declares has an owner with another path if and only if
the package was left out for it. -/
theorem Of.conflict_of_owner (h : t.Of settings collaborators disk report last) {v : Visit}
    (hv : v ∈ t.visits) {name : String} (hne : name ≠ "") (hname : v.entry.record.Declares name) :
    (∃ owner, ManifestRecord.FirstToDeclare t.records name owner ∧
        owner.path ≠ v.entry.record.path) ↔
      ∃ c ∈ t.registry.conflicts, c.name = name ∧ c.rejected = v.entry.record.path ∧
        c.kept ≠ c.rejected := by
  constructor
  · rintro ⟨owner, howner, hpath⟩
    have hother : v.entry.record ≠ owner := fun hsame => hpath (congrArg (·.path) hsame.symm)
    exact ⟨_, Registry.mem_conflicts_of_declares howner (h.record_mem v hv)
      ((ManifestRecord.declares_iff hne).1 hname) hother, rfl, rfl, hpath⟩
  · rintro ⟨c, hc, rfl, hrejected, hkept⟩
    obtain ⟨before, r, after, owner, hsplit, -, -, hpath, howner⟩ := Registry.mem_conflicts_build.1 hc
    refine ⟨owner, hsplit ▸ howner.append _, ?_⟩
    rwa [← hpath, ← hrejected]

end Trail

namespace Migration

variable {settings : Settings} {collaborators : Option Collaborators} {disk : Disk}
  {report : Report} {q : Progress}

/-! ## Main statement -/

/-- **A package depends on its own name** (`internalDependencies`) if a file of it that could be
scanned imports that `name` and the report tells by one of its `nameConflicts` that another manifest
has taken it. A package whose name was not taken never does, whatever it imports. -/
theorem own_name_of_plan (h : plan settings collaborators { disk } = (.ok report, q)) :
    ∃ t : Trail, t.Of settings collaborators disk report q.disk ∧
      report.packages = t.visits.map (·.report t.registry) ∧
      ∀ v ∈ t.visits, ∀ name, v.entry.record.Declares name →
        (name ∈ (v.report t.registry).internalDependencies.toList ↔
          (∃ file ∈ v.scan.files, file.ImportsPackage name) ∧
          ∃ c ∈ report.nameConflicts, c.name = name ∧
            c.rejected = (v.report t.registry).manifestPath ∧ c.kept ≠ c.rejected) := by
  obtain ⟨t, ht, -⟩ := exists_trail_of_plan h
  have hconflicts : report.nameConflicts = t.registry.conflicts := by rw [ht.reported]
  refine ⟨t, ht, ht.packages, fun v hv name hname => ?_⟩
  rw [hconflicts]
  by_cases hne : name = ""
  · -- the empty text is no name, and is never taken
    subst hne
    refine iff_of_false (empty_not_mem_internalDependencies t.records _ _) ?_
    rintro ⟨-, c, hc, hempty, -⟩
    obtain ⟨-, r, -, -, -, hr, -⟩ := Registry.mem_conflicts_build.1 hc
    exact r.name?_ne_empty (hempty ▸ hr)
  · have himports : name ∈ v.scan.usage.packageNames.toList ↔
        ∃ file ∈ v.scan.files, file.ImportsPackage name := by
      rw [(ht.seen v hv).usage_eq, Usage.mem_packageNames_ofScan]
    rw [← himports]
    exact (mem_internalDependencies hne).trans
      (and_congr_right fun _ => ht.conflict_of_owner hv hne hname)

/-- Two packages of one name, the second of which imports a file of that name. -/
def namesakes : Disk :=
  ⟨.dir [("a", .dir [("package.json", .file "\x7b\"name\":\"n\"\x7d".toUTF8)]),
    ("b", .dir [("package.json", .file "\x7b\"name\":\"n\"\x7d".toUTF8),
      ("x.js", .file "import 'n/y'".toUTF8)])], []⟩

/-- What is reported of them. -/
theorem plan_namesakes :
    (plan { root := some "/" } none { disk := namesakes }).1.toOption.map (fun report =>
      (report.packages.map fun p => (p.name, p.internalDependencies.toList), report.nameConflicts)) =
      some ([(some "n", []), (some "n", ["n"])],
        [⟨"n", "a/package.json", "b/package.json"⟩]) := by decide +kernel

/-- The second one depends on its own name, which was taken. -/
theorem own_name_of_plan_namesakes : ∃ report q t,
    plan { root := some "/" } none { disk := namesakes } = (.ok report, q) ∧
      report.packages.map (·.internalDependencies.toList) = [[], ["n"]] ∧
      report.nameConflicts = [⟨"n", "a/package.json", "b/package.json"⟩] ∧
      Trail.Of t { root := some "/" } none namesakes report q.disk ∧
      ∀ v ∈ t.visits, ∀ name, v.entry.record.Declares name →
        (name ∈ (v.report t.registry).internalDependencies.toList ↔
          (∃ file ∈ v.scan.files, file.ImportsPackage name) ∧
          ∃ c ∈ report.nameConflicts, c.name = name ∧
            c.rejected = (v.report t.registry).manifestPath ∧ c.kept ≠ c.rejected) := by
  obtain ⟨report, q, hrun, hfields⟩ := exists_of_map_toOption plan_namesakes
  obtain ⟨hpackages, hconflicts⟩ := Prod.mk.inj hfields
  obtain ⟨t, ht, -, hown⟩ := own_name_of_plan hrun
  refine ⟨report, q, t, hrun, ?_, hconflicts, ht, hown⟩
  have hsecond := congrArg (List.map Prod.snd) hpackages
  rwa [List.map_map] at hsecond

/-- **A package may depend on itself**, where another manifest has taken its name. -/
theorem not_own_name_of_plan_of_taken :
    ¬∀ (settings : Settings) (collaborators : Option Collaborators) (disk : Disk) (report : Report)
      (q : Progress), plan settings collaborators { disk } = (.ok report, q) →
      ∀ p ∈ report.packages, ∀ name, p.name = some name →
        name ∉ p.internalDependencies.toList := by
  intro h
  obtain ⟨report, q, hrun, hfields⟩ := exists_of_map_toOption plan_namesakes
  obtain ⟨hpackages, -⟩ := Prod.mk.inj hfields
  have hsecond : (some "n", ["n"]) ∈
      report.packages.map fun p => (p.name, p.internalDependencies.toList) := by
    rw [hpackages]
    simp
  obtain ⟨p, hp, hfields⟩ := List.mem_map.1 hsecond
  obtain ⟨hname, hdependencies⟩ := Prod.mk.inj hfields
  refine h _ _ _ _ _ hrun p hp "n" hname ?_
  rw [hdependencies]
  exact List.mem_singleton_self "n"

end Migration

end FlowMigration
