import FlowMigration.Proofs.Migration.Passage
import FlowMigration.Proofs.Package.Keys

/-!
# A migration that fails can be taken up again

* `Resumes`: how far the packages of a configuration have been brought up to date.
* `failed_plan_resumable`: a configuration that cannot be loaded ends a migration before anything
  happens. A migration that goes on changes the configuration file alone, stops at the first package
  that cannot be looked through, and leaves a configuration that is up to date with all before.
-/

namespace FlowMigration

open ConfigStore (Since fileName openAt foundPackages)

/-- What became of a configuration when the packages of `done` had been looked through, with the
results `scans`, and those of `rest` were left: packages that are gone are dropped, those of `done`
are as they were found, and those of `rest` are as they were before. -/
structure Resumes (before after : MigrationConfig) (done rest : List TopologyEntry)
    (scans : List PackageScan) : Prop where
  same : after = { before with packages := after.packages }
  gone : ∀ key, key ∉ (done ++ rest).map (·.key) → after.packages.get? key = none
  found : ∀ f ∈ done.zip scans, after.packages.get? f.1.key = some f.2.config
  left : ∀ e ∈ rest, after.packages.get? e.key = before.packages.get? e.key

/-- **Packages that `recordAll` puts in** bring a configuration up to date, when their keys are
distinct. -/
theorem resumes_recordAll (store : ConfigStore) {done rest : List TopologyEntry}
    {scans : List PackageScan} (hlength : scans.length = done.length)
    (hnd : ((done ++ rest).map (·.key)).Nodup) :
    Resumes store.config
      ((store.retain ((done ++ rest).map (·.key))).recordAll done scans).config done rest scans := by
  rw [List.map_append, List.nodup_append] at hnd
  obtain ⟨hdone, -, hapart⟩ := hnd
  have hkeys := ConfigStore.keys_foundPackages hlength
  have hother : ∀ key, key ∉ done.map (·.key) →
      ((foundPackages done scans).foldl (fun dict e => dict.insert e.1 e.2)
        (store.retain ((done ++ rest).map (·.key))).config.packages).get? key =
      if key ∈ (done ++ rest).map (·.key) then store.config.packages.get? key else none := by
    intro key hkey
    rw [Dict.get?_foldl_insert (hkeys ▸ hkey), ConfigStore.retain, Dict.get?_filter]
    simp only [List.contains_iff_mem]
  rw [ConfigStore.recordAll_eq]
  refine ⟨rfl, fun key hkey => ?_, fun f hf => ?_, fun e he => ?_⟩
  · have hkey' : key ∉ done.map (·.key) := fun hmem =>
      hkey (by rw [List.map_append]; exact List.mem_append_left _ hmem)
    exact (hother key hkey').trans (if_neg hkey)
  · have hmem : (f.1.key, f.2.config) ∈ foundPackages done scans := List.mem_map_of_mem hf
    exact Dict.get?_foldl_insert_of_mem (hkeys ▸ hdone) hmem _
  · have hmem : e.key ∈ rest.map (·.key) := List.mem_map_of_mem he
    have hkey : e.key ∉ done.map (·.key) := fun hdone => hapart _ hdone _ hmem rfl
    refine (hother e.key hkey).trans (if_pos ?_)
    rw [List.map_append]
    exact List.mem_append_right _ hmem

namespace Migration

/-- A migration whose configuration `ConfigStore.load` cannot read fails before anything happens. -/
theorem plan_of_unloadable {settings : Settings} {collaborators : Option Collaborators}
    {disk : Disk} {root : String} (hroot : settings.findRoot disk = .ok root)
    (hexists : disk.pathExists (Path.join root fileName) = true) {failure : Failure}
    (hload : ConfigStore.load (.fresh settings.prettier settings.recast) (Path.join root fileName)
      disk = .error failure) :
    ∃ log, plan settings collaborators { disk } = (.error failure, ⟨disk, log, []⟩) := by
  have hopen : ∀ log, openAt root (.fresh settings.prettier settings.recast) ⟨disk, log, []⟩ =
      (.error failure, ⟨disk, log, []⟩) := fun log => ConfigStore.openAt_eq_error hexists hload
  refine ⟨[.info "Starting repository migration", .info ("Using root directory: " ++ root)], ?_⟩
  simp only [plan, planAt, Settings.withRoot, Settings.definiteRoot, bind, Session.info, Session.say,
    Session.look, Session.get, hroot, pure, Option.elim_some, hopen, List.nil_append,
    List.singleton_append]

/-- **A migration that fails can be taken up again.** A configuration that is there and cannot be
loaded ends it with the disk as it was and nothing delivered. Otherwise, once the manifests are
found, nothing but the configuration file changes, and opened again over the same defaults the
configuration is up to date with the packages of `done`, that is with all of them, or with those
before the first one that could not be looked through, on which the migration failed. -/
theorem failed_plan_resumable (settings : Settings) (collaborators : Option Collaborators)
    {disk : Disk} (hlegal : disk.Legal) {root : String} (hroot : settings.findRoot disk = .ok root) :
    (∀ failure, disk.pathExists (Path.join root fileName) = true →
      ConfigStore.load (.fresh settings.prettier settings.recast) (Path.join root fileName) disk =
        .error failure →
      ∃ log, plan settings collaborators { disk } = (.error failure, ⟨disk, log, []⟩)) ∧
    ∀ store opened records r q, (disk.entry (Path.join root fileName ++ ".tmp")).isOk = false →
      (∀ text, disk.read (Path.join root fileName) = .ok text → ConfigStore.WholeText text) →
      openAt root (.fresh settings.prettier settings.recast) { disk } = (.ok store, opened) →
      ManifestRecord.load opened.disk root = .ok records →
      plan settings collaborators { disk } = (r, q) →
      ∃ place done rest scans report config, disk.locate root = .ok place ∧
        Since place disk q.disk ∧ Topology.build records = done ++ rest ∧
        scans.length = done.length ∧
        (∀ f ∈ done.zip scans, ∃ before, Since place disk before ∧
          PackageScan.found before root f.1 settings.sources = .ok f.2) ∧
        EndsAt root settings.sources q.disk r report rest ∧
        (openAt root (.fresh settings.prettier settings.recast)).Runs q.disk
          (.ok ⟨Path.join root fileName, config⟩) q.disk ∧
        Resumes store.config config done rest scans := by
  refine ⟨fun failure hexists hload => plan_of_unloadable hroot hexists hload, ?_⟩
  intro store opened records r q hfree hwhole hopen hload hrun
  obtain ⟨place, done, rest, scans, conversions, hsavable, hsince, hkept, hsplit, hpassage, hends⟩ :=
    exists_passage_of_plan (p := { disk }) hlegal hroot hfree hwhole hopen hload hrun
  have hpassage' := hpassage.earlier hsince
  have hnd := Topology.nodup_keys hkept.savable.wellFormed hload
  rw [hsplit] at hnd hpassage
  have hresumes := resumes_recordAll store hpassage.length hnd
  have hopens := hpassage.kept.opens
  have hpath := hpassage.kept.path
  refine ⟨place, done, rest, scans, _, _, hsavable.located, hpassage'.since, hsplit, hpassage.length,
    hpassage'.found, hends, ?_, hresumes⟩
  rw [← hpath]
  exact hopens

/-- A repository with a package whose name is no glob, and with another package before it. -/
def unclosedRepository : Disk :=
  ⟨.dir [("a", .dir [("package.json", .file "\x7b\x7d".toUTF8)]),
    ("b\x7b", .dir [("package.json", .file "\x7b\x7d".toUTF8)]),
    ("flow-ts-config.json",
      .file "\x7b\"packages\":\x7b\"gone\":[\"\",[]]\x7d\x7d".toUTF8)], []⟩

/-- A repository whose configuration is no object. -/
def corruptRepository : Disk := ⟨.dir [("flow-ts-config.json", .file "1".toUTF8)], []⟩

/-- The one migration stops at the second package, the other before it has done anything. -/
theorem failed_plan_resumable_unclosed :
    (∃ failure log, plan { root := some "/" } none { disk := corruptRepository } =
      (.error failure, ⟨corruptRepository, log, []⟩)) ∧
    ∃ failure q store done entry rest scans config,
      plan { root := some "/" } none { disk := unclosedRepository } = (.error failure, q) ∧
      (openAt "/" (.fresh true true)).Runs q.disk (.ok ⟨"/flow-ts-config.json", config⟩) q.disk ∧
      Resumes store config done (entry :: rest) scans := by
  constructor
  · have hlegal : corruptRepository.Legal := by decide +kernel
    have hroot : Settings.findRoot { root := some "/" } corruptRepository = .ok "/" := by
      decide +kernel
    have hexists : corruptRepository.pathExists (Path.join "/" fileName) = true := by decide +kernel
    have hfails : (ConfigStore.load (.fresh true true) (Path.join "/" fileName)
        corruptRepository).isOk = false := by decide +kernel
    cases hload : ConfigStore.load (.fresh true true) (Path.join "/" fileName) corruptRepository with
    | ok store =>
      rw [hload] at hfails
      cases hfails
    | error failure =>
      exact ⟨failure, (failed_plan_resumable { root := some "/" } none hlegal hroot).1 failure
        hexists hload⟩
  · have hlegal : unclosedRepository.Legal := by decide +kernel
    have hroot : Settings.findRoot { root := some "/" } unclosedRepository = .ok "/" := by
      decide +kernel
    have hfree : (unclosedRepository.entry (Path.join "/" fileName ++ ".tmp")).isOk = false := by
      decide +kernel
    have hwhole : ∀ text, unclosedRepository.read (Path.join "/" fileName) = .ok text →
        ConfigStore.WholeText text := by
      have hall : ∀ text ∈ (unclosedRepository.read (Path.join "/" fileName)).toOption,
          ConfigStore.WholeText text := by decide +kernel
      intro text hread
      exact hall text (by rw [hread]; rfl)
    have hopens : (openAt "/" (.fresh true true) { disk := unclosedRepository }).1.isOk = true := by
      decide +kernel
    have hloads : (ManifestRecord.load (openAt "/" (.fresh true true)
        { disk := unclosedRepository }).2.disk "/").isOk = true := by decide +kernel
    have hfails : (plan { root := some "/" } none { disk := unclosedRepository }).1.isOk = false := by
      decide +kernel
    obtain ⟨store, opened, hopen⟩ := exists_of_isOk hopens
    rw [hopen] at hloads
    obtain ⟨records, hload⟩ := isOk_iff.1 hloads
    rcases hrun : plan { root := some "/" } none { disk := unclosedRepository } with ⟨r, q⟩
    obtain ⟨place, done, rest, scans, report, config, -, -, -, -, -, hends, hopens, hresumes⟩ :=
      (failed_plan_resumable { root := some "/" } none hlegal hroot).2 store opened records r q
        hfree hwhole hopen hload hrun
    rw [hrun] at hfails
    cases rest with
    | nil =>
      rw [show r = _ from hends] at hfails
      cases hfails
    | cons entry rest =>
      obtain ⟨failure, -, rfl⟩ := hends
      exact ⟨failure, q, store.config, done, entry, rest, scans, config, rfl, hopens, hresumes⟩

end Migration

end FlowMigration
