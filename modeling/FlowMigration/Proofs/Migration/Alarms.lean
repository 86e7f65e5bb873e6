import FlowMigration.Proofs.Migration.Trail
import FlowMigration.Proofs.Package.Usage
import FlowMigration.Proofs.Registry
import Mathlib.Data.List.Forall2

/-!
# The alarms of a migration

Every error and every warning of the log stands for one thing that the report tells, too, and the
other way round, in the same order.

* `Incident`: what may be wrong; `Told`: an entry of the log tells about it.
* `Trail.tells_alarms`: the log of a trail tells its incidents.
* `alarms_of_plan`: the errors and the warnings of a migration that came to a report.
-/

namespace FlowMigration

/-! ## Incidents -/

/-- What may be wrong in a repository. -/
inductive Incident where
  /-- A manifest could not be read. -/
  | badManifest (path : String)
  /-- A name is declared once more. -/
  | takenName (conflict : NameConflict)
  /-- There are manifests, and none declares a name. -/
  | nameless
  /-- A source file could not be read. -/
  | unread (path : String)
  /-- A source file could not be parsed. -/
  | lexical (path : String)
  /-- A source file could not be converted. -/
  | unconverted (path : String)

namespace Incident

def level : Incident → LogLevel
  | nameless | lexical _ => .warn
  | badManifest _ | takenName _ | unread _ | unconverted _ => .error

/-- The files that an `Incident` is about. -/
def paths : Incident → List String
  | badManifest path | unread path | lexical path | unconverted path => [path]
  | takenName conflict => [conflict.rejected, conflict.kept]
  | nameless => []

/-- The message about an `Incident`, which some `cause` may end. -/
def text (cause : String) : Incident → String
  | badManifest path => "Error loading package.json:\n  - " ++ path ++ "\n" ++ cause
  | takenName conflict => "Duplicate package names \"" ++ conflict.name ++ "\", in files:\n  - " ++
      conflict.rejected ++ "\n  - " ++ conflict.kept
  | nameless => "No package.json declares a name, internal dependencies cannot be detected"
  | unread path => "Failed to read source file:\n  - " ++ path ++ "\n" ++ cause
  | lexical path => "Could not parse " ++ path ++ ", imports were collected from its text"
  | unconverted path => "Failed to convert file:\n  - " ++ path ++ "\n" ++ cause

theorem infix_text (cause : String) (i : Incident) :
    ∀ path ∈ i.paths, path.toList <:+: (i.text cause).toList := by
  have hmiddle : ∀ as bs cs ds : List Char, bs <:+: as ++ bs ++ cs ++ ds := fun as bs cs ds =>
    ⟨as, cs ++ ds, by rw [← List.append_assoc]⟩
  intro path hpath
  cases i with
  | badManifest own | unread own | unconverted own =>
    obtain rfl := List.mem_singleton.1 hpath
    unfold text
    simp only [String.toList_append]
    exact hmiddle _ _ _ _
  | lexical own =>
    obtain rfl := List.mem_singleton.1 hpath
    unfold text
    simp only [String.toList_append]
    exact List.infix_append _ _ _
  | takenName conflict =>
    unfold text
    simp only [String.toList_append]
    rcases List.mem_cons.1 hpath with rfl | hpath
    · exact hmiddle _ _ _ _
    · obtain rfl := List.mem_singleton.1 hpath
      exact (List.suffix_append _ _).isInfix
  | nameless => cases hpath

end Incident

/-- An entry `e` of the log tells about an incident `i`: it has its level and its message, and names
the files. -/
structure Told (i : Incident) (e : LogEntry) : Prop where
  level : e.level = i.level
  text : ∃ cause, e.text = i.text cause
  names : ∀ path ∈ i.paths, path.toList <:+: e.text.toList

theorem Told.of_text (i : Incident) (cause : String) : Told i ⟨i.level, i.text cause⟩ :=
  ⟨rfl, ⟨cause, rfl⟩, i.infix_text cause⟩

/-- The entries of a `log` tell `incidents`, one by one. -/
def Tells (incidents : List Incident) (log : List LogEntry) : Prop :=
  List.Forall₂ Told incidents log

namespace Tells

variable {incidents incidents' : List Incident} {log log' : List LogEntry}

theorem nil : Tells [] [] := List.Forall₂.nil

theorem one (i : Incident) (cause : String) : Tells [i] [⟨i.level, i.text cause⟩] :=
  .cons (.of_text i cause) .nil

theorem append (h : Tells incidents log) (h' : Tells incidents' log') :
    Tells (incidents ++ incidents') (log ++ log') :=
  List.rel_append h h'

theorem flatMap {α : Type} (xs : List α) {f : α → List Incident} {g : α → List LogEntry}
    (h : ∀ x ∈ xs, Tells (f x) (g x)) : Tells (xs.flatMap f) (xs.flatMap g) := by
  induction xs with
  | nil => exact nil
  | cons x rest ih =>
    rw [List.flatMap_cons, List.flatMap_cons]
    exact (h x List.mem_cons_self).append (ih fun y hy => h y (List.mem_cons_of_mem _ hy))

theorem filter (h : Tells incidents log) (level : LogLevel) :
    Tells (incidents.filter (·.level = level)) (log.filter (·.level = level)) := by
  refine List.rel_filter ?_ h
  intro i e htold
  simp only [htold.level]

end Tells

/-! ## What each step tells -/

/-- What is wrong with the manifest of `r`. -/
def ManifestRecord.incidents (r : ManifestRecord) : List Incident :=
  if r.hasErrors then [.badManifest r.path] else []

/-- What is wrong with a source `file` that was scanned. -/
def ScannedFile.incidents (file : ScannedFile) : List Incident :=
  match file.outcome with
  | .error _ => [.unread file.path]
  | .ok options => if options.lexical then [.lexical file.path] else []

/-- What is wrong with a source file that was handed over, as its `Conversion` says. -/
def Conversion.incidents (c : Conversion) : List Incident :=
  if c.outcome.isOk then [] else [.unconverted c.path]

/-- What is wrong with the names of the manifests of `records`. -/
def Registry.incidents (registry : Registry) (records : List ManifestRecord) : List Incident :=
  registry.conflicts.map .takenName ++
    if registry.isEmpty && !records.isEmpty then [.nameless] else []

theorem ManifestRecord.tells_faultLog (r : ManifestRecord) : Tells r.incidents r.faultLog := by
  unfold incidents faultLog hasErrors data?
  cases r.manifest with
  | ok manifest => exact .nil
  | error message => exact .one (.badManifest r.path) message

theorem ScannedFile.tells_alarms (file : ScannedFile) : Tells file.incidents file.alarms := by
  unfold incidents alarms
  cases file.outcome with
  | error failure => exact .one (.unread file.path) failure.message
  | ok options =>
    dsimp only
    by_cases hlexical : options.lexical = true
    · rw [if_pos hlexical, if_pos hlexical]
      exact .one (.lexical file.path) ""
    · rw [if_neg hlexical, if_neg hlexical]
      exact .nil

theorem Conversion.tells_fileLog (c : Conversion) : Tells c.incidents c.fileLog := by
  unfold incidents fileLog
  cases c.outcome with
  | ok done => exact .nil
  | error failure => exact .one (.unconverted c.path) failure.message

theorem Registry.tells_log (registry : Registry) (records : List ManifestRecord) :
    Tells (registry.incidents records) (registry.log.filter (·.isAlarm) ++
      (Migration.packagesLog records registry).filter (·.isAlarm)) := by
  have hconflicts : Tells (registry.conflicts.map .takenName)
      (registry.log.filter (·.isAlarm)) := by
    rw [log, List.filter_cons_of_neg (by simp), List.filter_map, List.filter_eq_self.2]
    · induction registry.conflicts with
      | nil => exact .nil
      | cons c rest ih => exact .cons (.of_text (.takenName c) "") ih
    · intro c hc
      rfl
  refine hconflicts.append ?_
  rw [Migration.packagesLog, List.filter_append]
  split
  · exact .one .nameless ""
  · exact .nil

/-! ## What a trail tells -/

/-- What is wrong with the files of the package of a `Visit`. -/
def Visit.incidents (v : Visit) : List Incident :=
  v.scan.files.flatMap ScannedFile.incidents ++ v.conversions.flatMap Conversion.incidents

theorem Visit.tells_alarms (v : Visit) : Tells v.incidents v.alarms :=
  (Tells.flatMap v.scan.files fun file _ => file.tells_alarms).append
    (.flatMap v.conversions fun c _ => c.tells_fileLog)

namespace Trail

/-- What is wrong in a repository, in the order in which the migration of the trail `t` comes across
it. -/
def incidents (t : Trail) : List Incident :=
  t.records.flatMap ManifestRecord.incidents ++ t.registry.incidents t.records ++
    t.visits.flatMap Visit.incidents

/-- **The `alarms` of a trail tell its `incidents`**, and nothing else. -/
theorem tells_alarms (t : Trail) : Tells t.incidents t.alarms := by
  have hrecords := Tells.flatMap t.records fun r _ => r.tells_faultLog
  have hvisits := Tells.flatMap t.visits fun v _ => v.tells_alarms
  rw [incidents, alarms, List.append_assoc (t.records.flatMap ManifestRecord.faultLog)]
  exact (hrecords.append (t.registry.tells_log t.records)).append hvisits

end Trail

/-! ## Errors and warnings -/

theorem flatMap_ite {α β : Type} (xs : List α) (p : α → Bool) (f : α → β) :
    xs.flatMap (fun x => if p x then [f x] else []) = (xs.filter p).map f := by
  induction xs with
  | nil => rfl
  | cons x rest ih =>
    rw [List.flatMap_cons, ih, List.filter_cons]
    split <;> rfl

/-- The errors among the incidents of `files` are those that could not be read. -/
theorem ScannedFile.errors_incidents (files : List ScannedFile) :
    (files.flatMap incidents).filter (·.level = .error) =
      ((files.filter (·.isFailed)).map (·.path)).map .unread := by
  rw [List.filter_flatMap, List.map_map, ← flatMap_ite]
  refine List.flatMap_congr fun file _ => ?_
  unfold incidents isFailed
  cases file.outcome with
  | error failure => rfl
  | ok options =>
    dsimp only
    split
    · rfl
    · rfl

theorem ScannedFile.warnings_incidents (files : List ScannedFile) :
    (files.flatMap incidents).filter (·.level = .warn) =
      ((files.filter (·.isLexical)).map (·.path)).map .lexical := by
  rw [List.filter_flatMap, List.map_map, ← flatMap_ite]
  refine List.flatMap_congr fun file _ => ?_
  unfold incidents isLexical
  cases file.outcome with
  | error failure => rfl
  | ok options =>
    by_cases hlexical : options.lexical = true
    · simp [hlexical, Incident.level]
    · simp [hlexical]

theorem Conversion.errors_incidents (conversions : List Conversion) :
    (conversions.flatMap incidents).filter (·.level = .error) =
      (tally conversions).failed.map .unconverted := by
  rw [List.filter_flatMap, tally, List.map_map, ← flatMap_ite]
  refine List.flatMap_congr fun c _ => ?_
  unfold incidents
  cases c.outcome.isOk with
  | true => rfl
  | false => rfl

theorem Conversion.warnings_incidents (conversions : List Conversion) :
    (conversions.flatMap incidents).filter (·.level = .warn) = [] := by
  refine List.filter_eq_nil_iff.2 fun i hi => ?_
  obtain ⟨c, -, hi⟩ := List.mem_flatMap.1 hi
  unfold incidents at hi
  split at hi
  · cases hi
  · obtain rfl := List.mem_singleton.1 hi
    simp [Incident.level]

namespace Visit

variable {root sources : String} {collaborators : Option Collaborators} {v : Visit}

theorem Seen.errors_incidents (h : v.Seen root sources collaborators) :
    v.incidents.filter (·.level = .error) =
      v.scan.usage.failedFiles.map .unread ++ v.tally.failed.map .unconverted := by
  rw [incidents, List.filter_append, ScannedFile.errors_incidents, Conversion.errors_incidents,
    h.usage_eq, Usage.failedFiles_ofScan, tally]

theorem Seen.warnings_incidents (h : v.Seen root sources collaborators) :
    v.incidents.filter (·.level = .warn) = v.scan.usage.lexicalFiles.map .lexical := by
  rw [incidents, List.filter_append, ScannedFile.warnings_incidents,
    Conversion.warnings_incidents, h.usage_eq, Usage.lexicalFiles_ofScan, List.append_nil]

end Visit

/-- Incidents of one `level` are all told at that level. -/
theorem filter_level_map {α : Type} (xs : List α) (f : α → Incident) (level : LogLevel)
    {own : LogLevel} (h : ∀ x, (f x).level = own) :
    (xs.map f).filter (·.level = level) = if own = level then xs.map f else [] := by
  split
  · next hsame =>
    refine List.filter_eq_self.2 fun i hi => ?_
    obtain ⟨x, -, rfl⟩ := List.mem_map.1 hi
    rw [h, hsame, decide_eq_true rfl]
  · next hother =>
    refine List.filter_eq_nil_iff.2 fun i hi => ?_
    obtain ⟨x, -, rfl⟩ := List.mem_map.1 hi
    rw [h, decide_eq_true_eq]
    exact hother

theorem ManifestRecord.incidents_eq (records : List ManifestRecord) :
    records.flatMap incidents = (records.filter (·.hasErrors)).map (.badManifest ·.path) :=
  flatMap_ite records (·.hasErrors) fun r => Incident.badManifest r.path

/-- The warning about manifests of which none declares a name, if `records` are such. -/
def Registry.namelessIn (records : List ManifestRecord) : List Incident :=
  if records ≠ [] ∧ ∀ r ∈ records, r.name? = none then [.nameless] else []

theorem Registry.incidents_build (records : List ManifestRecord) :
    (build records).incidents records =
      (build records).conflicts.map .takenName ++ namelessIn records := by
  rw [incidents, namelessIn]
  congr 1
  refine if_congr ?_ rfl rfl
  rw [Bool.and_eq_true, isEmpty_build, Bool.not_eq_true', List.isEmpty_eq_false_iff]
  exact and_comm

theorem Registry.filter_namelessIn (records : List ManifestRecord) (level : LogLevel) :
    (namelessIn records).filter (·.level = level) =
      if level = .warn then namelessIn records else [] := by
  unfold namelessIn
  cases level with
  | error => split <;> rfl
  | warn => split <;> rfl
  | info => split <;> rfl

namespace Trail

variable {t : Trail} {settings : Settings} {collaborators : Option Collaborators}
  {disk last : Disk} {report : Report}

/-- The `incidents` of a trail at one `level`, step by step. -/
theorem filter_incidents (t : Trail) (level : LogLevel) :
    t.incidents.filter (·.level = level) =
      (if .error = level then (t.records.filter (·.hasErrors)).map (.badManifest ·.path) ++
          t.registry.conflicts.map .takenName else []) ++
        (if level = .warn then Registry.namelessIn t.records else []) ++
        t.visits.flatMap fun v => v.incidents.filter (·.level = level) := by
  have hrecords := filter_level_map (t.records.filter (·.hasErrors)) (.badManifest ·.path) level
    fun r => rfl
  have hconflicts := filter_level_map (Registry.build t.records).conflicts .takenName level
    fun c => rfl
  rw [incidents, registry, Registry.incidents_build, ManifestRecord.incidents_eq]
  simp only [List.filter_append, List.filter_flatMap, hrecords, hconflicts,
    Registry.filter_namelessIn]
  split
  · simp only [List.append_assoc]
  · simp only [List.nil_append]

/-- **The errors** of a migration, in the order of its trail `t`. -/
theorem Of.errors_incidents (h : t.Of settings collaborators disk report last) :
    t.incidents.filter (·.level = .error) =
      (t.records.filter (·.hasErrors)).map (.badManifest ·.path) ++
        t.registry.conflicts.map .takenName ++
        t.visits.flatMap fun v =>
          v.scan.usage.failedFiles.map .unread ++ v.tally.failed.map .unconverted := by
  rw [filter_incidents, if_pos rfl, if_neg (by decide), List.append_nil]
  congr 1
  exact List.flatMap_congr fun v hv => (h.seen v hv).errors_incidents

/-- **The warnings** of a migration, in the order of its trail `t`. -/
theorem Of.warnings_incidents (h : t.Of settings collaborators disk report last) :
    t.incidents.filter (·.level = .warn) =
      Registry.namelessIn t.records ++
        t.visits.flatMap fun v => v.scan.usage.lexicalFiles.map .lexical := by
  rw [filter_incidents, if_neg (by decide), if_pos rfl, List.nil_append]
  congr 1
  exact List.flatMap_congr fun v hv => (h.seen v hv).warnings_incidents

end Trail

/-! ## Main statement -/

theorem Visit.tallies_eq (visits : List Visit) (start : Tally) :
    tallies visits start = ⟨start.converted ++ visits.flatMap (·.tally.converted),
      start.failed ++ visits.flatMap (·.tally.failed)⟩ := by
  induction visits generalizing start with
  | nil => simp [tallies]
  | cons v rest ih =>
    rw [tallies, List.foldl_cons, ← tallies, ih]
    simp [Tally.append]

namespace Migration

variable {settings : Settings} {collaborators : Option Collaborators} {disk : Disk}
  {report : Report} {q : Progress}

theorem filter_alarms {level : LogLevel} (h : level ≠ .info) (p : Progress) :
    p.alarms.filter (·.level = level) = p.log.filter (·.level = level) := by
  rw [Progress.alarms, List.filter_filter]
  refine List.filter_congr fun e _ => ?_
  unfold LogEntry.isAlarm
  by_cases hlevel : e.level = level
  · simp [hlevel, h]
  · simp [hlevel]

/-- **Every alarm is accounted for.** The errors of a migration that came to a `report` tell
(`Tells`), one by one, the manifests that could not be read, in the order in which they were loaded,
then the names that were taken, and then, package by package (`t.visits`), the files that could not
be read and those that could not be converted. The warnings tell of manifests that are all nameless
(`Registry.namelessIn`), and, package by package, the files that could not be parsed. -/
theorem alarms_of_plan (h : plan settings collaborators { disk } = (.ok report, q)) :
    ∃ t : Trail, t.Of settings collaborators disk report q.disk ∧
      report.packages = t.visits.map (·.report t.registry) ∧
      report.manifestsFailed = (t.records.filter (·.hasErrors)).length ∧
      report.conversions = collaborators.map (fun _ =>
        ⟨t.visits.flatMap (·.tally.converted), t.visits.flatMap (·.tally.failed)⟩) ∧
      (collaborators = none → ∀ v ∈ t.visits, v.tally = {}) ∧
      Tells ((t.records.filter (·.hasErrors)).map (.badManifest ·.path) ++
          report.nameConflicts.map .takenName ++
          t.visits.flatMap fun v => (v.report t.registry).usage.failedFiles.map .unread ++
            v.tally.failed.map .unconverted)
        (q.log.filter (·.level = .error)) ∧
      Tells (Registry.namelessIn t.records ++
          t.visits.flatMap fun v => (v.report t.registry).usage.lexicalFiles.map .lexical)
        (q.log.filter (·.level = .warn)) := by
  obtain ⟨t, ht, halarms⟩ := exists_trail_of_plan h
  have htells : Tells t.incidents q.alarms := by
    rw [halarms]
    exact t.tells_alarms
  have herrors := htells.filter .error
  have hwarnings := htells.filter .warn
  rw [ht.errors_incidents, filter_alarms (by decide)] at herrors
  rw [ht.warnings_incidents, filter_alarms (by decide)] at hwarnings
  obtain ⟨hpackages, hfailed, hconflicts, hconversions⟩ :
      report.packages = t.visits.map (·.report t.registry) ∧
      report.manifestsFailed = (t.records.filter (·.hasErrors)).length ∧
      report.nameConflicts = t.registry.conflicts ∧
      report.conversions = collaborators.map fun _ => Visit.tallies t.visits {} := by
    rw [ht.reported]
    exact ⟨rfl, rfl, rfl, rfl⟩
  refine ⟨t, ht, hpackages, hfailed, ?_, fun hnone v hv => ?_, hconflicts ▸ herrors, hwarnings⟩
  · rw [hconversions]
    simp only [Visit.tallies_eq, List.nil_append]
  · have hconverted := (ht.seen v hv).converted
    rw [hnone] at hconverted
    rw [Visit.tally, hconverted]
    rfl

/-- Collaborators whose converter refuses every file. -/
def refusing : Collaborators where
  convert _ _ _ _ := .error (.refused "no")
  deliver _ _ := .ok ()

/-- A repository with a manifest that is no manifest, a name that is declared twice, a source file
that is no text and one that could be converted. -/
def troubled : Disk :=
  ⟨.dir [("a", .dir [("package.json", .file "\x7b\"name\":\"n\"\x7d".toUTF8),
      ("x.js", .file ⟨#[255]⟩), ("y.js", .file .empty)]),
    ("b", .dir [("package.json", .file "\x7b\"name\":\"n\"\x7d".toUTF8)]),
    ("package.json", .file .empty)], []⟩

/-- Each of these troubles is told. -/
theorem alarms_of_plan_troubled : ∃ report q t,
    plan { root := some "/" } (some refusing) { disk := troubled } = (.ok report, q) ∧
      report.manifestsFailed = 1 ∧
      report.nameConflicts = [⟨"n", "a/package.json", "b/package.json"⟩] ∧
      Trail.Of t { root := some "/" } (some refusing) troubled report q.disk ∧
      Tells ((t.records.filter (·.hasErrors)).map (.badManifest ·.path) ++
          report.nameConflicts.map .takenName ++
          t.visits.flatMap fun v => (v.report t.registry).usage.failedFiles.map .unread ++
            v.tally.failed.map .unconverted)
        (q.log.filter (·.level = .error)) := by
  have hfacts : (plan { root := some "/" } (some refusing) { disk := troubled }).1.toOption.map
      (fun report => (report.manifestsFailed, report.nameConflicts)) =
        some (1, [⟨"n", "a/package.json", "b/package.json"⟩]) := by decide +kernel
  obtain ⟨report, q, hrun, hfields⟩ := exists_of_map_toOption hfacts
  obtain ⟨hfailed, hconflicts⟩ := Prod.mk.inj hfields
  obtain ⟨t, ht, -, -, -, -, herrors, -⟩ := alarms_of_plan hrun
  exact ⟨report, q, t, hrun, hfailed, hconflicts, ht, herrors⟩

end Migration

end FlowMigration
