import FlowMigration.Proofs.Config.Merging
import FlowMigration.Proofs.Migration.Opening

/-!
# A migration that is run again

* `Survey.update_eq`: the packages of the configuration come from the survey alone.
* `ConfigStore.Holds`: a configuration file stands for the packages of a store, with all flags.
* `plan_again`: a migration without collaborators that is run again reports the same and changes
  nothing, if no symbolic link leads to its configuration.
-/

namespace FlowMigration

open ConfigStore (Ready Settled Since fileName)

/-! ## Packages that are recorded again -/

namespace Survey

open ConfigStore (foundPackages keys_foundPackages)

variable {disk : Disk} {root : String} {survey : Survey}

theorem length_scans (h : ofDisk disk root = .ok survey) :
    survey.scans.length = survey.topology.length := by
  obtain ⟨records, -, h⟩ := bind_eq_ok h
  obtain ⟨scans, hscans, h⟩ := bind_eq_ok h
  cases h
  exact (mapM_eq_ok_iff.1 hscans).length_eq.symm

/-- The packages of a configuration after a `survey`. -/
def packages (survey : Survey) : Dict PackageConfig :=
  Dict.ofList (foundPackages survey.topology survey.scans)

/-- **The packages come from the `survey` alone.** -/
theorem update_eq (h : survey.scans.length = survey.topology.length) (store : ConfigStore) :
    survey.update store =
      { store with config := { store.config with packages := survey.packages } } := by
  have hpackages : (foundPackages survey.topology survey.scans).foldl
      (fun dict e => dict.insert e.1 e.2) (store.retain survey.live).config.packages =
      survey.packages := by
    rw [packages, Dict.ofList]
    refine Dict.foldl_insert_congr fun k hk => ?_
    rw [keys_foundPackages h, ← live] at hk
    rw [ConfigStore.retain, Dict.get?_filter, if_neg (by simpa using hk)]
    rfl
  rw [update, ConfigStore.recordAll_eq, hpackages]
  rfl

end Survey

/-! ## Configurations that are opened again -/

namespace ConfigStore

variable {root : String} {place : List String} {store : ConfigStore}

/-- The configuration file stands for the packages of `store`, whatever flags it is read with. -/
def Holds (disk : Disk) (place : List String) (store : ConfigStore) : Prop :=
  ∃ text : String, disk.root.get? (place ++ [fileName]) = some (.file text.toUTF8) ∧
    ∀ prettier recast, ∃ config, parse (.fresh prettier recast) text = .ok config ∧
      config.packages = store.config.packages

/-- A `store` that was opened on a disk, and the disk that came of it. -/
structure Opened (disk : Disk) (root : String) (place : List String) (store : ConfigStore)
    (disk' : Disk) : Prop where
  path : store.path = Path.join root fileName
  keepable : store.config.Keepable
  since : Since place disk disk'
  settled : Settled disk' root place
  holds : Holds disk' place store

/-- **Opening a configuration** that is a `ConfigStore.WholeText`, if there is one. -/
theorem opened_of_openAt {p q : Progress} (h : Ready p.disk root place)
    (hwhole : WholeAt p.disk (Path.join root fileName)) {prettier recast : Bool}
    (hopen : openAt root (.fresh prettier recast) p = (.ok store, q)) :
    (openAt root (.fresh prettier recast)).Runs p.disk (.ok store) q.disk ∧
      Opened p.disk root place store q.disk := by
  cases hg : p.disk.root.get? (place ++ [fileName]) with
  | none =>
    have hruns := runs_openAt_absent h hg (.fresh prettier recast)
    obtain ⟨hstore, hq⟩ := hruns.of_eq hopen
    cases hstore
    let made : ConfigStore := ⟨Path.join root fileName, .fresh prettier recast⟩
    have hkeep : made.config.Keepable := keepable_fresh prettier recast
    rw [← hq]
    exact ⟨hruns, rfl, hkeep, .withFile _, h.settled _, made.text, Node.get?_put_file h.room _,
      fun prettier' recast' => ⟨_, parse_text hkeep prettier' recast', rfl⟩⟩
  | some node =>
    have hfile : p.disk.root.kindAt (place ++ [fileName]) = some .file := by
      rcases h.room.free with hfree | hfree
      · simp [Node.kindAt, hg] at hfree
      · exact hfree
    have hsettled : Settled p.disk root place := ⟨h, hfile⟩
    have hruns := runs_openAt_file hsettled (.fresh prettier recast)
    obtain ⟨hload, hq⟩ := hruns.of_eq hopen
    obtain ⟨text, htext, hpath, hparse⟩ := exists_text_of_load hsettled hload
    have hkeep : store.config.Keepable :=
      keepable_of_parse (hwhole.wholeFile (h.entry_config.2 htext) _ (fromUTF8?_toUTF8 text)) hparse
    rw [← hq]
    refine ⟨hload ▸ hruns, hpath, hkeep, .refl, hsettled, text, htext, fun prettier' recast' => ?_⟩
    exact parse_of_flags hparse prettier' recast'

end ConfigStore

/-! ## What a migration leaves -/

namespace Survey

open ConfigStore (Opened openAt parse)

variable {disk before : Disk} {root : String} {place : List String} {store : ConfigStore}
  {survey : Survey}

/-- **The configuration that a migration leaves** stands for what the `survey` leaves alone. -/
theorem exists_opened_again (h : Opened before root place store disk)
    (hscans : survey.scans.length = survey.topology.length) (prettier recast : Bool) :
    ∃ (text : String) (config : MigrationConfig),
      (survey.leave place store disk).root.get? (place ++ [fileName]) = some (.file text.toUTF8) ∧
      parse (.fresh prettier recast) text = .ok config ∧
      survey.leave place ⟨Path.join root fileName, config⟩ (survey.leave place store disk) =
        survey.leave place store disk := by
  by_cases hidle : store.stale survey.live = [] ∧ survey.topology = []
  · -- nothing was saved
    obtain ⟨text, htext, hparse⟩ := h.holds
    obtain ⟨config, hparse, hpackages⟩ := hparse prettier recast
    have hstay : survey.leave place store disk = disk := if_pos hidle
    have hstale : ConfigStore.stale ⟨Path.join root fileName, config⟩ survey.live = [] := by
      rw [ConfigStore.stale, hpackages]
      exact hidle.1
    rw [hstay]
    exact ⟨text, config, htext, hparse, if_pos ⟨hstale, hidle.2⟩⟩
  · have hsaved : survey.leave place store disk =
        disk.withFile (place ++ [fileName]) (survey.update store).text.toUTF8 := if_neg hidle
    have hkeep : (survey.update store).config.Keepable := by
      rw [update_eq hscans]
      exact ConfigStore.keepable_of_other h.keepable rfl
    have hstore : (⟨Path.join root fileName, (survey.update store).config⟩ : ConfigStore) =
        survey.update store := by
      rw [update_eq hscans, ← h.path]
    refine ⟨_, _, hsaved ▸ Node.get?_put_file h.settled.room _,
      ConfigStore.parse_text hkeep prettier recast, ?_⟩
    rw [hstore, hsaved, leave]
    split
    · rfl
    · rw [ConfigStore.withFile_withFile]
      simp only [update_eq hscans]

end Survey

/-! ## Migrations that came to a report -/

namespace Migration

open PackageScope (defaultSources)

variable {p : Progress} {report : Report}

/-- The course of a migration of `disk` that came to a `report` and left another disk. -/
structure Course (settings : Settings) (disk : Disk) (report : Report) (left : Disk) (root : String)
    (place : List String) (store : ConfigStore) (opened : Disk) : Prop where
  found : settings.findRoot disk = .ok root
  path : report.configPath = Path.join root fileName
  ready : Ready disk root place
  opens : ConfigStore.Opened disk root place store opened
  since : Since place opened left
  /-- When no link leads to the configuration, all comes from a `Survey`. -/
  comes : NoLinkTo opened.root (place ++ [fileName]) → ∃ survey,
    Survey.ofDisk opened root = .ok survey ∧ survey.report root = report ∧
      left = survey.leave place store opened

/-- **A migration that came to a `report`** has taken this course. -/
theorem exists_course {settings : Settings} {disk : Disk} (hw : disk.root.WellFormed)
    (hsources : settings.sources = defaultSources)
    (hrun : plan settings none { disk } = (.ok report, p))
    (hfree : (disk.entry (report.configPath ++ ".tmp")).isOk = false)
    (hwhole : ConfigStore.WholeAt disk report.configPath) :
    ∃ root place store opened, Course settings disk report p.disk root place store opened := by
  obtain ⟨root, mid, hroot, hmid, hplan⟩ := exists_root_of_plan hrun
  obtain rfl : mid.disk = disk := hmid
  obtain ⟨hpath, store, opened, records, hopen, hload⟩ := exists_opened_of_planAt hplan
  rw [hpath] at hfree hwhole
  have hne : root ≠ "" := by
    obtain ⟨there, hthere⟩ := locate_of_load hload
    exact (Disk.locate_eq_ok.1 hthere).2.1
  obtain ⟨place, hready⟩ := ConfigStore.exists_ready hw hne (ne_ok_of_isOk hfree) hwhole hopen
  obtain ⟨hruns, hopened⟩ := ConfigStore.opened_of_openAt hready hwhole hopen
  obtain ⟨r, left, hplanned, hsince, hsurvey⟩ := runs_planAt { settings with root := some root }
    hruns hsources hopened.settled hopened.path
  obtain ⟨rfl, rfl⟩ := hplanned.of_eq hplan
  refine ⟨root, place, store, opened.disk, hroot, hpath, hready, hopened, hsince, fun hlinks => ?_⟩
  obtain ⟨hreport, hleave⟩ := hsurvey hlinks
  obtain ⟨survey, hfound, hsame⟩ := map_eq_ok_iff.1 hreport.symm
  exact ⟨survey, hfound, hsame, hleave survey hfound⟩

/-! ## Running again -/

/-- **A migration that is run again** comes to the same `report` and changes nothing: with the
default sources, with any flags both times (`first` and `second`), with a configuration that is
absent at first or a file without foreign doubles (`ConfigStore.WholeAt`), and when no symbolic link
leads to the configuration that the migration leaves. -/
theorem plan_again (first second : Settings) {disk : Disk} (hw : disk.root.WellFormed)
    (hsources : first.sources = defaultSources) (hsources' : second.sources = defaultSources)
    (hsame : second.root = first.root)
    (hrun : plan first none { disk } = (.ok report, p))
    (hfree : (disk.entry (report.configPath ++ ".tmp")).isOk = false)
    (hwhole : ConfigStore.WholeAt disk report.configPath)
    (hlinks : ∀ place, p.disk.locate report.configPath = .ok place → NoLinkTo p.disk.root place) :
    ∃ text q, p.disk.read report.configPath = .ok text ∧
      plan second none { disk := p.disk } = (.ok report, q) ∧ q.disk = p.disk := by
  obtain ⟨root, place, store, opened, h⟩ := exists_course hw hsources hrun hfree hwhole
  have hsettled := h.opens.settled.since h.since
  have hlinks' : NoLinkTo p.disk.root (place ++ [fileName]) :=
    hlinks _ (by rw [h.path, hsettled.locate_config])
  have hlinks₁ := hlinks'.congr (h.opens.settled.alike h.since).kindAt
  -- the survey of the first run is that of the second
  obtain ⟨survey, hfound, hreport, hleft⟩ := h.comes hlinks₁
  have hfound' : Survey.ofDisk p.disk root = .ok survey :=
    (Survey.ofDisk_since h.opens.settled h.since hlinks₁).trans hfound
  obtain ⟨text, config, htext, hparse, hagain⟩ := Survey.exists_opened_again h.opens
    (Survey.length_scans hfound) second.prettier second.recast
  rw [← hleft] at htext hagain
  obtain ⟨r, last, hplanned, -, hsurvey⟩ := runs_planAt { second with root := some root }
    (ConfigStore.runs_openAt_text hsettled htext hparse) hsources' hsettled rfl
  obtain ⟨hr, hlast⟩ := hsurvey hlinks'
  rw [hlast survey hfound', hagain, hr, hfound', Except.map, hreport] at hplanned
  have hroot := Settings.findRoot_since h.ready (h.opens.since.trans h.since) hsettled hlinks' hsame
    h.found
  obtain ⟨log, deliveries, hrun'⟩ := runs_plan hroot hplanned [] []
  refine ⟨text, _, ?_, hrun', rfl⟩
  rw [h.path, hsettled.read_config htext, ConfigStore.fromUTF8?_toUTF8]
  rfl

/-- A repository with a package and a configuration with a foreign member. -/
def keptRepository : Disk :=
  ⟨.dir [("flow-ts-config.json", .file "\x7b\"x\":1\x7d".toUTF8),
    ("package.json", .file "\x7b\x7d".toUTF8)], []⟩

/-- Its configuration is kept with other flags too. -/
theorem plan_again_with_other_flags : ∃ report p text q,
    plan { root := some "/" } none { disk := keptRepository } = (.ok report, p) ∧
      p.disk.read report.configPath = .ok text ∧
      plan { root := some "/", prettier := false, recast := false } none { disk := p.disk } =
        (.ok report, q) ∧ q.disk = p.disk := by
  have hw : keptRepository.root.WellFormed := by decide +kernel
  have hroot : Settings.findRoot { root := some "/" } keptRepository = .ok "/" := by decide +kernel
  have hok : (plan { root := some "/" } none { disk := keptRepository }).1.isOk = true := by
    decide +kernel
  have hnone : (plan { root := some "/" } none { disk := keptRepository }).2.disk.root.Throughout
      NoLinks := by decide +kernel
  have hfree : (keptRepository.entry ("/flow-ts-config.json" ++ ".tmp")).isOk = false := by
    decide +kernel
  have hwhole : ConfigStore.WholeAt keptRepository "/flow-ts-config.json" := by decide +kernel
  obtain ⟨report, p, hrun⟩ := exists_of_isOk hok
  rw [hrun] at hnone
  have hpath : report.configPath = "/flow-ts-config.json" :=
    (configPath_of_plan hroot hrun).trans (by decide)
  rw [← hpath] at hfree hwhole
  obtain ⟨text, q, hagain⟩ := plan_again { root := some "/" }
    { root := some "/", prettier := false, recast := false } hw rfl rfl rfl hrun hfree hwhole
    fun _ _ => .of_throughout hnone _
  exact ⟨report, p, text, q, hrun, hagain⟩

/-- A repository whose ignore file is a link to the configuration, a line of which is the name of a
directory. -/
def linkedRepository : Disk :=
  ⟨.dir [(".gitignore", .link "flow-ts-config.json"),
    ("1", .dir [("package.json", .file "\x7b\x7d".toUTF8)]),
    ("flow-ts-config.json",
      .file "\x7b\"packages\":\x7b\"\":[\"\",[]]\x7d,\"x\":\n1\n\x7d".toUTF8)], []⟩

/-- **Links to the configuration make a difference**: the text that the first migration leaves
ignores no directory, and the second fails on its lines. -/
theorem not_plan_again_of_links : ¬∀ (first second : Settings) (disk : Disk) (report : Report)
    (p : Progress), disk.root.WellFormed →
    first.sources = defaultSources → second.sources = defaultSources → second.root = first.root →
    plan first none { disk } = (.ok report, p) →
    (disk.entry (report.configPath ++ ".tmp")).isOk = false →
    ConfigStore.WholeAt disk report.configPath →
    ∃ text report' q, p.disk.read report.configPath = .ok text ∧
      plan second none { disk := p.disk } = (.ok report', q) ∧
      q.disk.read report.configPath = .ok text ∧ report'.packages = report.packages ∧
      report'.nameConflicts = report.nameConflicts ∧
      report'.manifestsFailed = report.manifestsFailed := by
  intro h
  have hw : linkedRepository.root.WellFormed := by decide +kernel
  have hroot : Settings.findRoot { root := some "/" } linkedRepository = .ok "/" := by
    decide +kernel
  have hok : (plan { root := some "/" } none { disk := linkedRepository }).1.isOk = true := by
    decide +kernel
  have hfails : (plan { root := some "/" } none
      { disk := (plan { root := some "/" } none { disk := linkedRepository }).2.disk }).1.isOk =
        false := by decide +kernel
  have hfree : (linkedRepository.entry ("/flow-ts-config.json" ++ ".tmp")).isOk = false := by
    decide +kernel
  have hwhole : ConfigStore.WholeAt linkedRepository "/flow-ts-config.json" := by decide +kernel
  obtain ⟨report, p, hrun⟩ := exists_of_isOk hok
  have hpath : report.configPath = "/flow-ts-config.json" :=
    (configPath_of_plan hroot hrun).trans (by decide)
  rw [← hpath] at hfree hwhole
  obtain ⟨text, report', q, -, hagain, -⟩ := h { root := some "/" } { root := some "/" }
    linkedRepository report p hw rfl rfl rfl hrun hfree hwhole
  rw [hrun, hagain] at hfails
  cases hfails

end Migration

end FlowMigration
