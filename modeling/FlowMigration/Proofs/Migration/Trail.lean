import FlowMigration.Proofs.Migration.Opening

/-!
# The trail of a migration

What a migration that came to a report has done, step by step: which manifests it found, which disk
each package was looked through on, what became of the files that were handed over, and what the log
says about it all beyond mere information.

* `Visit`: one package of a run; `Visited`: the run over all of them, from disk to disk.
* `migratePackage_eq_ok`, `exists_visits_of_migratePackages`: a run that succeeds, taken apart.
* `Trail`: a whole migration; `exists_trail_of_plan`: every report comes with one.
-/

namespace FlowMigration

/-! ## Alarms -/

/-- Entries of a log that tell more than how things go on. -/
def LogEntry.isAlarm (e : LogEntry) : Bool := e.level ≠ .info

namespace LogEntry

@[simp] theorem isAlarm_info (text : String) : (info text).isAlarm = false := rfl

@[simp] theorem isAlarm_warn (text : String) : (warn text).isAlarm = true := rfl

@[simp] theorem isAlarm_error (text : String) : (error text).isAlarm = true := rfl

end LogEntry

/-- The errors and warnings so far. -/
def Progress.alarms (p : Progress) : List LogEntry := p.log.filter (·.isAlarm)

/-- What the log says about a scanned `file` if something is wrong with it. -/
def ScannedFile.alarms (file : ScannedFile) : List LogEntry :=
  match file.outcome with
  | .error failure =>
    [.error ("Failed to read source file:\n  - " ++ file.path ++ "\n" ++ failure.message)]
  | .ok options =>
    if options.lexical then
      [.warn ("Could not parse " ++ file.path ++ ", imports were collected from its text")]
    else []

theorem Usage.fileLog_eq (total : Nat) (file : ScannedFile) (index : Nat) :
    fileLog total file index = progressEntry index total file.path :: file.alarms := rfl

theorem ScannedFile.filter_alarms (file : ScannedFile) :
    file.alarms.filter (·.isAlarm) = file.alarms := by
  unfold alarms
  split
  · simp
  · split <;> simp

theorem Usage.filter_log (files : List ScannedFile) :
    (Usage.log files).filter (·.isAlarm) = files.flatMap ScannedFile.alarms := by
  have hfile : ∀ total index (file : ScannedFile),
      (fileLog total file index).filter (·.isAlarm) = file.alarms := by
    intro total index file
    rw [fileLog_eq, progressEntry, List.filter_cons_of_neg (by simp), file.filter_alarms]
  unfold log
  generalize files.length = total
  rw [List.filter_flatMap]
  simp only [hfile]
  rw [← List.flatMap_map Prod.fst, List.zipIdx_map_fst]

theorem Conversion.filter_fileLog (c : Conversion) :
    c.fileLog.filter (·.isAlarm) = c.fileLog := by
  unfold fileLog
  split <;> simp

/-! ## Steps that succeed -/

section
variable {p q : Progress} {root sources : String}

/-- Saving the configuration of `store` changes one disk into another. -/
def ConfigStore.Saves (store : ConfigStore) (disk disk' : Disk) : Prop :=
  ∃ p q, store.save p = (.ok (), q) ∧ p.disk = disk ∧ q.disk = disk'

/-- A `Session.change` of the disk is neither logged nor handed out. -/
theorem Session.told_of_change {operation : Disk → Except FileError Disk}
    {failure : FileError → Failure} (h : Session.change operation failure p = (.ok (), q)) :
    q.log = p.log ∧ q.deliveries = p.deliveries := by
  unfold Session.change at h
  split at h
  · cases h
    exact ⟨rfl, rfl⟩
  · cases h

theorem ConfigStore.told_of_save {store : ConfigStore} (h : store.save p = (.ok (), q)) :
    q.log = p.log ∧ q.deliveries = p.deliveries := by
  obtain ⟨_, mid, hwrite, hrename⟩ := Session.bind_eq_ok h
  obtain ⟨hlog, hdeliveries⟩ := Session.told_of_change hrename
  rw [hlog, hdeliveries]
  exact Session.told_of_change hwrite

theorem ConfigStore.told_of_openAt {defaults : MigrationConfig} {store : ConfigStore}
    (h : ConfigStore.openAt root defaults p = (.ok store, q)) :
    q.alarms = p.alarms ∧ q.deliveries = p.deliveries := by
  rw [openAt, Session.disk_bind] at h
  split at h
  · obtain ⟨found, _, hlook, h⟩ := Session.bind_eq_ok h
    obtain ⟨-, rfl⟩ := Prod.mk.inj hlook
    rw [Session.info_bind] at h
    cases h
    simp [Progress.alarms]
  · rw [Session.info_bind] at h
    obtain ⟨_, _, hsave, h⟩ := Session.bind_eq_ok h
    cases h
    obtain ⟨hlog, hdeliveries⟩ := told_of_save hsave
    simp [Progress.alarms, hlog, hdeliveries]

/-- What `dropStale` drops from a configuration is saved at once. -/
theorem Migration.dropStale_eq_ok {store store' : ConfigStore} {live : List String}
    (h : dropStale store live p = (.ok store', q)) :
    store' = store.retain live ∧
      (if store.stale live = [] then q.disk = p.disk
        else (store.retain live).Saves p.disk q.disk) ∧
      q.alarms = p.alarms ∧ q.deliveries = p.deliveries := by
  have hquiet : ∀ dropped, (ConfigStore.retainLog dropped).filter (·.isAlarm) = [] := by
    intro dropped
    simp [ConfigStore.retainLog]
  rw [dropStale, Session.say_bind] at h
  by_cases hstale : store.stale live = []
  · rw [hstale] at h
    cases h
    simp [Progress.alarms, hquiet, hstale]
  · rw [if_neg (by simpa using hstale)] at h
    obtain ⟨_, _, hsave, h⟩ := Session.bind_eq_ok h
    cases h
    obtain ⟨hlog, hdeliveries⟩ := ConfigStore.told_of_save hsave
    refine ⟨rfl, ?_, ?_, hdeliveries⟩
    · rw [if_neg hstale]
      exact ⟨_, _, hsave, rfl, rfl⟩
    · simp [Progress.alarms, hlog, hquiet]

/-- **A package that has been looked through**: `PackageScan.found` tells what is in it. -/
theorem PackageScan.ofEntry_eq_ok {entry : TopologyEntry} {scan : PackageScan}
    (h : ofEntry root entry sources p = (.ok scan, q)) :
    found p.disk root entry sources = .ok scan ∧ q.disk = p.disk ∧
      q.alarms = p.alarms ++ scan.files.flatMap ScannedFile.alarms ∧
      q.deliveries = p.deliveries := by
  rw [ofEntry, Session.say_bind] at h
  obtain ⟨paths, _, hlook, h⟩ := Session.bind_eq_ok h
  obtain ⟨hcollect, rfl⟩ := Prod.mk.inj hlook
  rw [Session.info_bind, Session.info_bind, Session.disk_bind, Session.info_bind,
    Session.say_bind] at h
  cases h
  refine ⟨?_, rfl, ?_, rfl⟩
  · rw [found]
    dsimp only at hcollect ⊢
    rw [hcollect]
    rfl
  · simp [Progress.alarms, searchLog, Usage.filter_log, ofFiles]

/-- **Files that have been handed over**: `tally` tells what became of them. -/
theorem Conversion.dispatch_eq_ok {c : Collaborators} {compiler : CompilerOptions}
    {scanned : List ScannedFile} {result : Tally}
    (h : dispatch c root compiler scanned p = (.ok result, q)) :
    result = tally (all c p.disk root compiler scanned) ∧ q.disk = p.disk ∧
      q.alarms = p.alarms ++ (all c p.disk root compiler scanned).flatMap fileLog ∧
      q.deliveries = p.deliveries ++ deliveries (all c p.disk root compiler scanned) := by
  rw [dispatch, Session.disk_bind, Session.deliver_bind, Session.say_bind] at h
  cases h
  refine ⟨rfl, rfl, ?_, rfl⟩
  simp [Progress.alarms, List.filter_flatMap, filter_fileLog]

end

/-! ## One package -/

/-- What a migration does with one package. -/
structure Visit where
  entry : TopologyEntry
  /-- The disk that the package is looked through on. -/
  disk : Disk
  scan : PackageScan
  /-- What becomes of the files that are handed over, one `Conversion` for each. -/
  conversions : List Conversion

namespace Visit

def tally (v : Visit) : Tally := Conversion.tally v.conversions

def report (registry : Registry) (v : Visit) : PackageReport :=
  Migration.packageReport registry v.entry v.scan.usage

/-- What the log says if something is wrong with the visit `v`: first with reading the files, then
with converting them. -/
def alarms (v : Visit) : List LogEntry :=
  v.scan.files.flatMap ScannedFile.alarms ++ v.conversions.flatMap Conversion.fileLog

/-- The files of the visit `v` that are handed out, with their texts. -/
def deliveries (v : Visit) : List (String × String) := Conversion.deliveries v.conversions

/-- The visit is what a migration of the repository at `root` comes to. -/
structure Seen (root sources : String) (collaborators : Option Collaborators) (v : Visit) :
    Prop where
  scanned : PackageScan.found v.disk root v.entry sources = .ok v.scan
  converted : v.conversions = collaborators.elim []
    fun c => Conversion.all c v.disk root v.scan.config.compilerOptions v.scan.files

/-- What a package uses is put together from its files by `Usage.ofScan`. -/
theorem Seen.usage_eq {root sources : String} {collaborators : Option Collaborators} {v : Visit}
    (h : v.Seen root sources collaborators) :
    v.scan.usage = Usage.ofScan v.entry.record.data? v.scan.files := by
  obtain ⟨paths, -, hscan⟩ := PackageScan.found_eq_ok h.scanned
  rw [hscan]
  rfl

end Visit

namespace Migration

variable {p q : Progress} {root sources : String} {registry : Registry}
  {collaborators : Option Collaborators} {stage stage' : Stage}

/-- **A package that `migratePackage` is done with** was visited, recorded and saved. -/
theorem migratePackage_eq_ok {entry : TopologyEntry}
    (h : migratePackage root sources registry collaborators stage entry p = (.ok stage', q)) :
    ∃ v : Visit, v.entry = entry ∧ v.disk = p.disk ∧ v.Seen root sources collaborators ∧
      (stage.store.record entry.key v.scan.config).Saves v.disk q.disk ∧
      stage' = ⟨stage.store.record entry.key v.scan.config,
        stage.packages ++ [v.report registry], stage.conversions.map (·.append v.tally)⟩ ∧
      q.alarms = p.alarms ++ v.alarms ∧ q.deliveries = p.deliveries ++ v.deliveries := by
  obtain ⟨scan, mid, hscan, h⟩ := Session.bind_eq_ok h
  obtain ⟨hfound, hdisk, halarms, hdeliveries⟩ := PackageScan.ofEntry_eq_ok hscan
  cases collaborators with
  | none =>
    obtain ⟨tally, _, htally, h⟩ := Session.bind_eq_ok h
    cases htally
    obtain ⟨_, _, hsave, h⟩ := Session.bind_eq_ok h
    cases h
    obtain ⟨hlog, hhanded⟩ := ConfigStore.told_of_save hsave
    refine ⟨⟨entry, p.disk, scan, []⟩, rfl, rfl, ⟨hfound, rfl⟩, ⟨_, _, hsave, hdisk, rfl⟩, rfl, ?_, ?_⟩
    · rw [Progress.alarms, hlog, ← Progress.alarms, halarms]
      simp [Visit.alarms]
    · rw [hhanded, hdeliveries]
      simp [Visit.deliveries, Conversion.deliveries]
  | some c =>
    obtain ⟨tally, handed, htally, h⟩ := Session.bind_eq_ok h
    obtain ⟨rfl, hdisk', halarms', hdeliveries'⟩ := Conversion.dispatch_eq_ok htally
    obtain ⟨_, _, hsave, h⟩ := Session.bind_eq_ok h
    cases h
    obtain ⟨hlog, hhanded⟩ := ConfigStore.told_of_save hsave
    refine ⟨⟨entry, p.disk, scan, Conversion.all c p.disk root scan.config.compilerOptions
        scan.files⟩, rfl, rfl, ⟨hfound, rfl⟩, ⟨_, _, hsave, hdisk'.trans hdisk, rfl⟩, ?_, ?_, ?_⟩
    · rw [hdisk]
      rfl
    · rw [Progress.alarms, hlog, ← Progress.alarms, halarms', halarms, hdisk, List.append_assoc]
      rfl
    · rw [hhanded, hdeliveries', hdeliveries, hdisk]
      rfl

end Migration

/-! ## All packages -/

/-- **The `visits` of a run** over packages. Each one is made on the disk that the one before has
left; then its package is recorded in the configuration, and that is saved. -/
inductive Visited (root sources : String) (collaborators : Option Collaborators) :
    ConfigStore → Disk → List Visit → Disk → Prop
  | done (store : ConfigStore) (disk : Disk) :
      Visited root sources collaborators store disk [] disk
  | next {store : ConfigStore} {v : Visit} {after last : Disk} {rest : List Visit}
      (seen : v.Seen root sources collaborators)
      (saved : (store.record v.entry.key v.scan.config).Saves v.disk after)
      (more : Visited root sources collaborators (store.record v.entry.key v.scan.config) after
        rest last) :
      Visited root sources collaborators store v.disk (v :: rest) last

theorem Visited.seen {root sources : String} {collaborators : Option Collaborators}
    {store : ConfigStore} {disk last : Disk} {visits : List Visit}
    (h : Visited root sources collaborators store disk visits last) :
    ∀ v ∈ visits, v.Seen root sources collaborators := by
  induction h with
  | done store disk => simp
  | next seen saved more ih =>
    intro v hv
    rcases List.mem_cons.1 hv with rfl | hv
    · exact seen
    · exact ih v hv

/-- What becomes of all files that are handed over, by the `tally` of each visit. -/
def Visit.tallies (visits : List Visit) (start : Tally) : Tally :=
  visits.foldl (fun tally v => tally.append v.tally) start

namespace Migration

variable {p q : Progress} {root sources : String} {registry : Registry}
  {collaborators : Option Collaborators} {stage stage' : Stage}

/-- **A run over the packages of `entries`** visits them one by one. -/
theorem exists_visits_of_migratePackages {total index : Nat} {entries : List TopologyEntry}
    (h : migratePackages root sources registry collaborators total index stage entries p =
      (.ok stage', q)) :
    ∃ visits : List Visit, visits.map (·.entry) = entries ∧
      Visited root sources collaborators stage.store p.disk visits q.disk ∧
      stage'.packages = stage.packages ++ visits.map (·.report registry) ∧
      stage'.conversions = stage.conversions.map (Visit.tallies visits) ∧
      q.alarms = p.alarms ++ visits.flatMap Visit.alarms ∧
      q.deliveries = p.deliveries ++ visits.flatMap Visit.deliveries := by
  induction entries generalizing index stage p with
  | nil =>
    cases h
    refine ⟨[], rfl, .done _ _, by simp, ?_, by simp, by simp⟩
    cases stage'.conversions <;> rfl
  | cons entry rest ih =>
    rw [migratePackages, Session.say_bind] at h
    obtain ⟨middle, mid, hone, h⟩ := Session.bind_eq_ok h
    obtain ⟨v, rfl, hdisk, hseen, hsaves, rfl, halarms, hdeliveries⟩ := migratePackage_eq_ok hone
    obtain ⟨visits, rfl, hvisited, hpackages, hconversions, hmore, hdelivered⟩ := ih h
    refine ⟨v :: visits, rfl, ?_, ?_, ?_, ?_, ?_⟩
    · have hnext := Visited.next hseen hsaves hvisited
      rwa [hdisk] at hnext
    · rw [hpackages, List.map_cons, List.append_assoc, List.singleton_append]
    · rw [hconversions, Option.map_map]
      rfl
    · rw [hmore, halarms, List.flatMap_cons, List.append_assoc]
      simp [Progress.alarms, Usage.progressEntry]
    · rw [hdelivered, hdeliveries, List.flatMap_cons, List.append_assoc]

end Migration

/-! ## Whole migrations -/

/-- What a migration has come across. -/
structure Trail where
  root : String
  /-- The configuration as it was opened, and the disk after that, `opened`. -/
  store : ConfigStore
  opened : Disk
  records : List ManifestRecord
  visits : List Visit

namespace Trail

def registry (t : Trail) : Registry := Registry.build t.records

/-- What the log says if something is wrong, by the trail `t`. -/
def alarms (t : Trail) : List LogEntry :=
  t.records.flatMap ManifestRecord.faultLog ++ t.registry.log.filter (·.isAlarm) ++
    (Migration.packagesLog t.records t.registry).filter (·.isAlarm) ++
    t.visits.flatMap Visit.alarms

/-- The keys of the packages that were found, by the trail `t`. -/
def live (t : Trail) : List String := (Topology.build t.records).map (·.key)

/-- The trail is that of a migration which came from `disk` to `last` and to a `report`. -/
structure Of (t : Trail) (settings : Settings) (collaborators : Option Collaborators)
    (disk : Disk) (report : Report) (last : Disk) : Prop where
  root : settings.findRoot disk = .ok t.root
  opened : ∃ p q, ConfigStore.openAt t.root (.fresh settings.prettier settings.recast) p =
    (.ok t.store, q) ∧ p.disk = disk ∧ q.disk = t.opened
  records : ManifestRecord.load t.opened t.root = .ok t.records
  entries : t.visits.map (·.entry) = Topology.build t.records
  visited : ∃ start, (if t.store.stale t.live = [] then start = t.opened
      else (t.store.retain t.live).Saves t.opened start) ∧
    Visited t.root settings.sources (collaborators.map (Migration.allowed t.store.config))
      (t.store.retain t.live) start t.visits last
  reported : report = {
    root := t.root
    configPath := t.store.path
    packages := t.visits.map (·.report t.registry)
    manifestsFailed := (t.records.filter (·.hasErrors)).length
    nameConflicts := t.registry.conflicts
    conversions := collaborators.map fun _ => Visit.tallies t.visits {} }

section
variable {t : Trail} {settings : Settings} {collaborators : Option Collaborators}
  {disk last : Disk} {report : Report}

theorem Of.seen (h : t.Of settings collaborators disk report last) : ∀ v ∈ t.visits,
    v.Seen t.root settings.sources (collaborators.map (Migration.allowed t.store.config)) := by
  obtain ⟨start, -, hvisited⟩ := h.visited
  exact hvisited.seen

theorem Of.packages (h : t.Of settings collaborators disk report last) :
    report.packages = t.visits.map (·.report t.registry) := by
  rw [h.reported]

theorem Of.record_mem (h : t.Of settings collaborators disk report last) :
    ∀ v ∈ t.visits, v.entry.record ∈ t.records := by
  intro v hv
  have hentry : v.entry ∈ t.visits.map (·.entry) := List.mem_map_of_mem hv
  rw [h.entries] at hentry
  exact (Topology.mem_records_of_mem_build hentry).1

end

end Trail

namespace ManifestRecord

theorem filter_faultLog (r : ManifestRecord) : r.faultLog.filter (·.isAlarm) = r.faultLog := by
  unfold faultLog
  split <;> simp

theorem filter_loadLog (records : List ManifestRecord) :
    (loadLog records).filter (·.isAlarm) = records.flatMap faultLog := by
  simp [loadLog, List.filter_flatMap, filter_faultLog]

end ManifestRecord

namespace Migration

variable {p q : Progress} {root : String} {settings : Settings}
  {collaborators : Option Collaborators} {report : Report}

/-- A report comes with a `Trail` once the root is found. -/
theorem exists_trail_of_planAt (hroot : settings.findRoot p.disk = .ok root)
    (h : planAt root { settings with root := some root } collaborators p = (.ok report, q)) :
    ∃ t : Trail, t.Of settings collaborators p.disk report q.disk ∧
      q.alarms = p.alarms ++ t.alarms ∧
      q.deliveries = p.deliveries ++ t.visits.flatMap Visit.deliveries := by
  obtain ⟨store, mid, hopen, h⟩ := Session.bind_eq_ok h
  rw [Session.info_bind] at h
  obtain ⟨records, _, hlook, h⟩ := Session.bind_eq_ok h
  obtain ⟨hload, rfl⟩ := Prod.mk.inj hlook
  rw [Session.say_bind, Session.say_bind, Session.say_bind, Session.say_bind] at h
  obtain ⟨store', _, hdrop, h⟩ := Session.bind_eq_ok h
  obtain ⟨rfl, hstart, hdropped, hkept⟩ := dropStale_eq_ok hdrop
  rw [Session.info_bind] at h
  obtain ⟨stage, _, hrun, h⟩ := Session.bind_eq_ok h
  obtain ⟨visits, hentries, hvisited, hpackages, hconversions, halarms, hdelivered⟩ :=
    exists_visits_of_migratePackages hrun
  rw [Session.info_bind] at h
  cases h
  obtain ⟨hopened, hbegun⟩ := ConfigStore.told_of_openAt hopen
  refine ⟨⟨root, store, mid.disk, records, visits⟩, ?_, ?_, ?_⟩
  · refine ⟨hroot, ⟨p, mid, hopen, rfl, rfl⟩, hload, hentries, ⟨_, hstart, hvisited⟩, ?_⟩
    rw [hpackages, hconversions, List.nil_append, Option.map_map, Option.map_map]
    rfl
  · simp only [Progress.alarms] at halarms hdropped hopened
    simp [Progress.alarms, Trail.alarms, Trail.registry, Topology.log, halarms, hdropped, hopened,
      ManifestRecord.filter_loadLog]
  · simp only at hdelivered hkept
    rw [hdelivered, hkept, hbegun]

/-- Every report comes with a `Trail`, which tells what was handed out. -/
theorem exists_delivering_trail_of_plan (h : plan settings collaborators p = (.ok report, q)) :
    ∃ t : Trail, t.Of settings collaborators p.disk report q.disk ∧
      q.alarms = p.alarms ++ t.alarms ∧
      q.deliveries = p.deliveries ++ t.visits.flatMap Visit.deliveries := by
  obtain ⟨root, mid, hroot, hdisk, hdeliveries, ⟨texts, hlog⟩, hplan⟩ := plan_eq_ok h
  rw [← hdisk] at hroot ⊢
  obtain ⟨t, htrail, halarms, hdelivered⟩ := exists_trail_of_planAt hroot hplan
  have hquiet : mid.alarms = p.alarms := by
    simp [Progress.alarms, hlog]
  exact ⟨t, htrail, hquiet ▸ halarms, hdeliveries ▸ hdelivered⟩

/-- **Every report comes with a `Trail`.** -/
theorem exists_trail_of_plan (h : plan settings collaborators p = (.ok report, q)) :
    ∃ t : Trail, t.Of settings collaborators p.disk report q.disk ∧
      q.alarms = p.alarms ++ t.alarms := by
  obtain ⟨t, htrail, halarms, -⟩ := exists_delivering_trail_of_plan h
  exact ⟨t, htrail, halarms⟩

end Migration

end FlowMigration
