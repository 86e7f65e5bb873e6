import FlowMigration.Migration
import FlowMigration.Proofs.Config.Save
import FlowMigration.Proofs.Package.Alike
import FlowMigration.Proofs.Session.Runs

/-!
# What a migration finds

A migration that converts nothing looks at the disk and changes one file of it, the configuration.

* `ConfigStore.Settled`: disks with a configuration to change; `ConfigStore.Since`: how they change.
* `Survey`: what is found in a repository, as a function of the disk. A changed configuration that
  no link leads to makes no difference (`Survey.ofDisk_since`).
* `runs_migratePackages`, `runs_planAt`: what a migration reports and leaves, from its survey.
-/

namespace FlowMigration

namespace ConfigStore

/-! ## Disks with a configuration -/

/-- A `Ready` disk where there is a configuration file. -/
structure Settled (disk : Disk) (root : String) (place : List String) : Prop
    extends Ready disk root place where
  file : disk.root.kindAt (place ++ [fileName]) = some .file

/-- What became of `disk`: it is the same, or has another configuration. -/
def Since (place : List String) (disk disk' : Disk) : Prop :=
  disk' = disk ∨ ∃ content, disk' = disk.withFile (place ++ [fileName]) content

variable {disk disk' disk'' : Disk} {root : String} {place : List String}

theorem Since.refl : Since place disk disk := .inl rfl

theorem Since.withFile (content : ByteArray) :
    Since place disk (disk.withFile (place ++ [fileName]) content) := .inr ⟨content, rfl⟩

theorem withFile_withFile (disk : Disk) (c : List String) (old new : ByteArray) :
    (disk.withFile c old).withFile c new = disk.withFile c new := by
  rw [Disk.withFile, Disk.withFile, Disk.withFile, Node.put_put]

theorem Since.trans (h : Since place disk disk') (h' : Since place disk' disk'') :
    Since place disk disk'' := by
  rcases h' with rfl | ⟨content, rfl⟩
  · exact h
  · rcases h with rfl | ⟨old, rfl⟩
    · exact .withFile content
    · rw [withFile_withFile]
      exact .withFile content

theorem Ready.settled (h : Ready disk root place) (content : ByteArray) :
    Settled (disk.withFile (place ++ [fileName]) content) root place :=
  ⟨h.withFile content, (h.grown content).file⟩

theorem Settled.since (h : Settled disk root place) (hs : Since place disk disk') :
    Settled disk' root place := by
  rcases hs with rfl | ⟨content, rfl⟩
  · exact h
  · exact h.toReady.settled content

theorem Settled.alike (h : Settled disk root place) (hs : Since place disk disk') :
    Disk.Alike (place ++ [fileName]) disk disk' := by
  rcases hs with rfl | ⟨content, rfl⟩
  · exact .refl _ _
  · exact Disk.alike_withFile h.wellFormed h.file content

theorem Settled.locate_ne (h : Settled disk root place) (c : List String)
    (hc : c = place ++ [fileName]) : disk.locate root ≠ .ok c := by
  rw [h.located, hc]
  intro he
  have hlen := congrArg List.length (Except.ok.inj he)
  simp at hlen

/-- The steps of `save`. -/
theorem runs_save (h : Savable disk root place) {store : ConfigStore}
    (hpath : store.path = Path.join root fileName) :
    store.save.Runs disk (.ok ()) (disk.withFile (place ++ [fileName]) store.text.toUTF8) :=
  fun log deliveries => ⟨log, deliveries, save_eq (p := ⟨disk, log, deliveries⟩) h hpath⟩

/-- The `store` with what was found in packages put in. -/
def recordAll (store : ConfigStore) (entries : List TopologyEntry) (scans : List PackageScan) :
    ConfigStore :=
  (entries.zip scans).foldl (fun store found => store.record found.1.key found.2.config) store

/-- What was found in packages, by the keys of the `entries`. -/
def foundPackages (entries : List TopologyEntry) (scans : List PackageScan) :
    List (String × PackageConfig) :=
  (entries.zip scans).map fun found => (found.1.key, found.2.config)

theorem recordAll_eq (store : ConfigStore) (entries : List TopologyEntry)
    (scans : List PackageScan) :
    store.recordAll entries scans = { store with config := { store.config with
      packages := (foundPackages entries scans).foldl (fun dict e => dict.insert e.1 e.2)
        store.config.packages } } := by
  unfold recordAll foundPackages
  induction entries.zip scans generalizing store with
  | nil => rfl
  | cons found rest ih => exact ih _

theorem keys_foundPackages {entries : List TopologyEntry} {scans : List PackageScan}
    (h : scans.length = entries.length) :
    (foundPackages entries scans).map (·.1) = entries.map (·.key) := by
  have hzip : (entries.zip scans).map Prod.fst = entries := List.map_fst_zip (Nat.le_of_eq h.symm)
  conv_rhs => rw [← hzip, List.map_map]
  rw [foundPackages, List.map_map]
  rfl

end ConfigStore

open ConfigStore (Savable Settled Since fileName)

/-! ## Surveys -/

/-- What is found in a repository: the manifests, and what the packages consist of. -/
structure Survey where
  records : List ManifestRecord
  scans : List PackageScan

namespace Survey

/-- Looks at all that a migration looks at on `disk` beside its configuration. -/
def ofDisk (disk : Disk) (root : String) : Except Failure Survey := do
  let records ← ManifestRecord.load disk root
  let scans ← (Topology.build records).mapM fun entry =>
    PackageScan.found disk root entry PackageScope.defaultSources
  .ok ⟨records, scans⟩

def topology (survey : Survey) : List TopologyEntry := Topology.build survey.records

/-- The keys of the packages of a `survey`. -/
def live (survey : Survey) : List String := survey.topology.map (·.key)

/-- What is reported of a `survey` when nothing is converted. -/
def report (survey : Survey) (root : String) : Report where
  root := root
  configPath := Path.join root fileName
  packages := List.zipWith (fun entry scan =>
    Migration.packageReport (Registry.build survey.records) entry scan.usage)
    survey.topology survey.scans
  manifestsFailed := (survey.records.filter (·.hasErrors)).length
  nameConflicts := (Registry.build survey.records).conflicts
  conversions := none

/-- The configuration of `store` after a `survey`. -/
def update (survey : Survey) (store : ConfigStore) : ConfigStore :=
  (store.retain survey.live).recordAll survey.topology survey.scans

/-- The disk after a `survey`. Where there are no packages and there were none, nothing is saved. -/
def leave (survey : Survey) (place : List String) (store : ConfigStore) (disk : Disk) : Disk :=
  if store.stale survey.live = [] ∧ survey.topology = [] then disk
  else disk.withFile (place ++ [fileName]) (survey.update store).text.toUTF8

variable {disk disk' : Disk} {root : String} {place : List String}

/-- Saving what is left of the packages, and then what was found, comes to the disk that `leave`
does. -/
theorem leave_of_dropped (survey : Survey) {store : ConfigStore} {disk₁ : Disk}
    (h : disk₁ = if store.stale survey.live = [] then disk else
      disk.withFile (place ++ [fileName]) (store.retain survey.live).text.toUTF8) :
    (if survey.topology = [] then disk₁ else
      disk₁.withFile (place ++ [fileName]) (survey.update store).text.toUTF8) =
      survey.leave place store disk := by
  have hstay : ∀ content, disk₁.withFile (place ++ [fileName]) content =
      disk.withFile (place ++ [fileName]) content := by
    intro content
    rw [h]
    split
    · rfl
    · exact ConfigStore.withFile_withFile _ _ _ _
  rw [hstay, leave]
  by_cases hnone : survey.topology = []
  · have hupdate : survey.update store = store.retain survey.live := by
      rw [update, hnone]
      rfl
    rw [if_pos hnone, h, hupdate]
    exact if_congr (and_iff_left hnone).symm rfl rfl
  · rw [if_neg hnone, if_neg fun hboth => hnone hboth.2]

theorem notIgnoreFile : fileName ∉ IgnoreLayer.fileNames := by decide

theorem fileName_ends : ∃ front d, fileName.toList = front ++ [d] ∧ d ∈ PackageScope.otherLetters :=
  ⟨"flow-ts-config.jso".toList, 'n', by decide, by decide⟩

/-- **What is `found` in a package** does not depend on the configuration. -/
theorem found_one (h : Settled disk root place) (hs : Since place disk disk')
    (hlinks : NoLinkTo disk.root (place ++ [fileName])) {entry : TopologyEntry}
    (hback : '\\' ∉ entry.dirPath.toList) :
    PackageScan.found disk' root entry PackageScope.defaultSources =
      PackageScan.found disk root entry PackageScope.defaultSources :=
  PackageScan.found_alike (h.alike hs) (hlinks.secluded h.file) fileName_ends hback notIgnoreFile

theorem found_since (h : Settled disk root place) (hs : Since place disk disk')
    (hlinks : NoLinkTo disk.root (place ++ [fileName])) {entries : List TopologyEntry}
    (hback : ∀ e ∈ entries, '\\' ∉ e.dirPath.toList) :
    entries.mapM (PackageScan.found disk' root · PackageScope.defaultSources) =
      entries.mapM (PackageScan.found disk root · PackageScope.defaultSources) := by
  induction entries with
  | nil => rw [List.mapM_nil, List.mapM_nil]
  | cons e rest ih =>
    rw [List.mapM_cons, List.mapM_cons, ih fun e he => hback e (List.mem_cons_of_mem _ he),
      found_one h hs hlinks (hback e List.mem_cons_self)]

/-- **A `Survey` does not depend on the configuration** if no link leads there. -/
theorem ofDisk_since (h : Settled disk root place) (hs : Since place disk disk')
    (hlinks : NoLinkTo disk.root (place ++ [fileName])) :
    ofDisk disk' root = ofDisk disk root := by
  have hload : ManifestRecord.load disk' root = ManifestRecord.load disk root :=
    ManifestRecord.load_alike (h.alike hs) (hlinks.secluded h.file) notIgnoreFile (by decide)
      h.locate_ne
  unfold ofDisk
  rw [hload]
  cases hrecords : ManifestRecord.load disk root with
  | error failure => dsimp only [bind, Except.bind]
  | ok records =>
    dsimp only [bind, Except.bind]
    rw [found_since h hs hlinks fun e he => Topology.no_backslash_dirPath hrecords he]

end Survey

/-! ## The packages of a migration -/

namespace Migration

variable {disk : Disk} {root : String} {place : List String}

open PackageScope (defaultSources)

/-- Looking through the package of `entry` leaves the disk alone. -/
theorem runs_ofEntry (disk : Disk) (root : String) (entry : TopologyEntry) (sources : String) :
    (PackageScan.ofEntry root entry sources).Runs disk
      (PackageScan.found disk root entry sources) disk := by
  intro log deliveries
  obtain ⟨log', he⟩ := PackageScan.ofEntry_eq root entry sources ⟨disk, log, deliveries⟩
  exact ⟨log', deliveries, he⟩

/-- So does handing its files over by `Conversion.dispatch`. -/
theorem runs_dispatch (c : Collaborators) (disk : Disk) (root : String)
    (compiler : CompilerOptions) (scanned : List ScannedFile) :
    ∃ tally, (Conversion.dispatch c root compiler scanned).Runs disk (.ok tally) disk :=
  ⟨_, .bind .read (.bind (.deliver _) (.bind (.say _) (.pure _)))⟩

/-- **A package that `migratePackage` looks through** is recorded, and the configuration saved. -/
theorem runs_migratePackage (h : Savable disk root place) {sources : String} (registry : Registry)
    (collaborators : Option Collaborators) (stage : Stage)
    (hpath : stage.store.path = Path.join root fileName) {entry : TopologyEntry}
    {scan : PackageScan} (hscan : PackageScan.found disk root entry sources = .ok scan) :
    ∃ tally, (migratePackage root sources registry collaborators stage entry).Runs disk
      (.ok ⟨stage.store.record entry.key scan.config,
        stage.packages ++ [packageReport registry entry scan.usage],
        stage.conversions.map (·.append tally)⟩)
      (disk.withFile (place ++ [fileName])
        (stage.store.record entry.key scan.config).text.toUTF8) := by
  have hlook : (PackageScan.ofEntry root entry sources).Runs disk (.ok scan) disk :=
    hscan ▸ runs_ofEntry disk root entry sources
  have hsave := ConfigStore.runs_save h
    (show (stage.store.record entry.key scan.config).path = Path.join root fileName from hpath)
  cases collaborators with
  | none => exact ⟨{}, .bind hlook (.bind (.pure _) (.bind hsave (.pure _)))⟩
  | some c =>
    obtain ⟨tally, hdispatch⟩ := runs_dispatch c disk root scan.config.compilerOptions scan.files
    exact ⟨tally, .bind hlook (.bind hdispatch (.bind hsave (.pure _)))⟩

theorem runs_migratePackage_error {sources : String} (registry : Registry)
    (collaborators : Option Collaborators) (stage : Stage) {entry : TopologyEntry}
    {failure : Failure} (hscan : PackageScan.found disk root entry sources = .error failure) :
    (migratePackage root sources registry collaborators stage entry).Runs disk (.error failure)
      disk :=
  .bind_error (hscan ▸ runs_ofEntry disk root entry sources)

/-- **The run over the packages of `entries`.** It changes the configuration at most. When no link
leads there it fails at the first package that cannot be looked through, and otherwise leaves the
configuration of its last stage. -/
theorem runs_migratePackages (registry : Registry)
    (total : Nat) {entries : List TopologyEntry}
    (hback : ∀ e ∈ entries, '\\' ∉ e.dirPath.toList)
    (h : Settled disk root place) (index : Nat) {store : ConfigStore}
    (hpath : store.path = Path.join root fileName) (packages : List PackageReport) :
    ∃ r disk', (migratePackages root defaultSources registry none total index
        ⟨store, packages, none⟩ entries).Runs disk r disk' ∧
      Since place disk disk' ∧
      (∀ stage, r = .ok stage → disk' = if entries = [] then disk else
        disk.withFile (place ++ [fileName]) stage.store.text.toUTF8) ∧
      (NoLinkTo disk.root (place ++ [fileName]) →
        r = (entries.mapM (PackageScan.found disk root · defaultSources)).map fun scans =>
          ⟨store.recordAll entries scans, packages ++ List.zipWith (fun entry scan =>
            packageReport registry entry scan.usage) entries scans, none⟩) := by
  induction entries generalizing disk index store packages with
  | nil =>
    refine ⟨_, disk, .pure _, .refl, fun _ _ => rfl, fun _ => ?_⟩
    simp [Except.map, pure, Except.pure, ConfigStore.recordAll]
  | cons entry rest ih =>
    rw [migratePackages, List.mapM_cons]
    cases hscan : PackageScan.found disk root entry defaultSources with
    | error failure =>
      refine ⟨.error failure, disk,
        .bind (.say _) (.bind_error (runs_migratePackage_error registry none _ hscan)), .refl, ?_, ?_⟩
      · rintro stage ⟨⟩
      · exact fun _ => rfl
    | ok scan =>
      let store' := store.record entry.key scan.config
      let disk₁ := disk.withFile (place ++ [fileName]) store'.text.toUTF8
      have hsince : Since place disk disk₁ := .withFile _
      obtain ⟨_, hown⟩ :=
        runs_migratePackage h.savable registry none ⟨store, packages, none⟩ hpath hscan
      obtain ⟨r, disk', hruns, hsince', hlast, hr⟩ := ih
        (fun e he => hback e (List.mem_cons_of_mem _ he)) (h.since hsince) (index + 1)
        (show store'.path = _ from hpath) (packages ++ [packageReport registry entry scan.usage])
      refine ⟨r, disk', .bind (.say _) (.bind hown hruns), hsince.trans hsince',
        fun stage hstage => ?_, fun hlinks => ?_⟩
      · rw [if_neg (List.cons_ne_nil _ _), hlast stage hstage]
        split
        · next hrest =>
          -- the last package leaves the disk as it was saved
          subst hrest
          obtain ⟨rfl, -⟩ := hruns.unique (.pure _)
          rw [← Except.ok.inj hstage]
        · exact ConfigStore.withFile_withFile _ _ _ _
      · have hlinks₁ := hlinks.congr (h.alike hsince).kindAt.symm
        rw [hr hlinks₁, Survey.found_since h hsince hlinks
          fun e he => hback e (List.mem_cons_of_mem _ he)]
        cases rest.mapM (PackageScan.found disk root · defaultSources) with
        | error failure => simp only [Except.map, bind, Except.bind]
        | ok scans =>
          simp [Except.map, bind, Except.bind, pure, Except.pure, ConfigStore.recordAll, store']

/-! ## Whole migrations -/

/-- What has become of a configuration is saved if something was dropped for the keys that are
`live`. -/
theorem runs_dropStale (h : Savable disk root place) {store : ConfigStore}
    (hpath : store.path = Path.join root fileName) (live : List String) :
    ∃ disk', (dropStale store live).Runs disk (.ok (store.retain live)) disk' ∧
      disk' = if store.stale live = [] then disk else
        disk.withFile (place ++ [fileName]) (store.retain live).text.toUTF8 := by
  unfold dropStale
  by_cases hstale : store.stale live = []
  · refine ⟨disk, .bind (.say _) ?_, by rw [if_pos hstale]⟩
    rw [hstale]
    exact .pure _
  · refine ⟨_, .bind (.say _) ?_, by rw [if_neg hstale]⟩
    rw [if_neg (by simpa using hstale)]
    exact .bind (ConfigStore.runs_save h hpath) (.pure _)

/-- What is reported after the last `stage`. -/
def reportAfter (root path : String) (records : List ManifestRecord) (stage : Stage) : Report where
  root := root
  configPath := path
  packages := stage.packages
  manifestsFailed := (records.filter (·.hasErrors)).length
  nameConflicts := (Registry.build records).conflicts
  conversions := stage.conversions

/-- A migration that found the manifests of `records` comes as far as the run over its packages. -/
theorem runs_planAt_of_packages {settings : Settings} {collaborators : Option Collaborators}
    {before dropped disk' : Disk} {store kept : ConfigStore} {records : List ManifestRecord}
    {r : Except Failure Stage}
    (hopen : (ConfigStore.openAt root (.fresh settings.prettier settings.recast)).Runs before
      (.ok store) disk)
    (hload : ManifestRecord.load disk root = .ok records)
    (hdrop : (dropStale store ((Topology.build records).map (·.key))).Runs disk (.ok kept) dropped)
    (hruns : (migratePackages root settings.sources (Registry.build records)
        (collaborators.map (allowed kept.config)) (Topology.build records).length 0
        ⟨kept, [], (collaborators.map (allowed kept.config)).map fun _ => {}⟩
        (Topology.build records)).Runs dropped r disk') :
    (planAt root settings collaborators).Runs before
      (r.map (reportAfter root kept.path records)) disk' := by
  have hlook : (Session.look fun disk => ManifestRecord.load disk root).Runs disk (.ok records)
      disk := hload ▸ .look _
  unfold planAt
  refine .bind hopen (.bind (.info _) (.bind hlook (.bind (.say _) (.bind (.say _) (.bind (.say _)
    (.bind (.say _) (.bind hdrop (.bind (.info _) ?_))))))))
  cases r with
  | error failure => exact .bind_error hruns
  | ok stage => exact .bind hruns (.bind (.info _) (.pure _))

/-- **The run of a migration** whose configuration has been opened to `store`. -/
theorem runs_planAt (settings : Settings) {before : Disk} {store : ConfigStore}
    (hopen : (ConfigStore.openAt root (.fresh settings.prettier settings.recast)).Runs before
      (.ok store) disk)
    (hsources : settings.sources = defaultSources) (h : Settled disk root place)
    (hpath : store.path = Path.join root fileName) :
    ∃ r disk', (planAt root settings none).Runs before r disk' ∧ Since place disk disk' ∧
      (NoLinkTo disk.root (place ++ [fileName]) →
        r = (Survey.ofDisk disk root).map (·.report root) ∧
        ∀ survey, Survey.ofDisk disk root = .ok survey → disk' = survey.leave place store disk) := by
  unfold Survey.ofDisk
  cases hload : ManifestRecord.load disk root with
  | error failure =>
    have hlook : (Session.look fun disk => ManifestRecord.load disk root).Runs disk
        (.error failure) disk := hload ▸ .look _
    refine ⟨.error failure, disk, .bind hopen (.bind (.info _) (.bind_error hlook)), .refl,
      fun _ => ⟨rfl, ?_⟩⟩
    rintro survey ⟨⟩
  | ok records =>
    let topology := Topology.build records
    let live := topology.map (·.key)
    have hback : ∀ e ∈ topology, '\\' ∉ e.dirPath.toList := fun e he =>
      Topology.no_backslash_dirPath hload he
    obtain ⟨disk₁, hdrop, hdisk₁⟩ := runs_dropStale h.savable hpath live
    have hsince : Since place disk disk₁ := by
      rw [hdisk₁]
      split
      · exact .refl
      · exact .withFile _
    have h₁ := h.since hsince
    have hkept : (store.retain live).path = Path.join root fileName := hpath
    obtain ⟨r, disk', hruns, hsince', hlast, hr⟩ := runs_migratePackages
      (Registry.build records) topology.length hback h₁ 0 hkept []
    refine ⟨_, disk', runs_planAt_of_packages hopen hload hdrop (hsources ▸ hruns),
      hsince.trans hsince', fun hlinks => ?_⟩
    have hlinks₁ := hlinks.congr (h.alike hsince).kindAt.symm
    rw [hr hlinks₁, Survey.found_since h hsince hlinks hback] at hlast ⊢
    dsimp only [bind, Except.bind]
    cases hscans : topology.mapM (PackageScan.found disk root · defaultSources) with
    | error failure => exact ⟨rfl, by rintro survey ⟨⟩⟩
    | ok scans =>
      refine ⟨by rw [hkept]; rfl, ?_⟩
      rintro survey ⟨⟩
      have hleave := hlast ⟨(store.retain live).recordAll topology scans, _, none⟩
        (by rw [hscans]; rfl)
      rw [hleave]
      exact Survey.leave_of_dropped ⟨records, scans⟩ hdisk₁

end Migration

end FlowMigration
