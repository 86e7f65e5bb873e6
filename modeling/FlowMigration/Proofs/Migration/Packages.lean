import FlowMigration.Proofs.Migration.Passage
import FlowMigration.Proofs.Package.Keys

/-!
# The configuration that a migration leaves

* `Describes`: the packages of a configuration are those of a topology.
* `KeepsMembers`: everything else in it comes from the file that was there, or from the defaults.
* `packages_of_plan`: both hold of the configuration that a migration leaves; and when no symbolic
  link leads to the configuration, its packages are the same whatever configuration there was
  before.
-/

namespace FlowMigration

open ConfigStore (Since Savable Ready Settled Kept fileName openAt)

/-! ## Packages -/

/-- The `packages` of a configuration have the keys of the `topology`, which are distinct, and under
each key the globs of the package and what follows from the summary of its files. -/
structure Describes (packages : Dict PackageConfig) (sources : String)
    (topology : List TopologyEntry) (scans : List PackageScan) : Prop where
  distinct : (topology.map (·.key)).Nodup
  keys : ∀ key, key ∈ packages.keys ↔ key ∈ topology.map (·.key)
  values : ∀ f ∈ topology.zip scans, packages.get? f.1.key =
    some ⟨(PackageScope.ofEntry f.1 sources).sources, (PackageScope.ofEntry f.1 sources).ignores,
      f.2.usage.compilerOptions⟩

/-- The configuration of a package is made of its globs and of the `usage` of its files. -/
theorem PackageScan.config_of_found {disk : Disk} {root sources : String} {entry : TopologyEntry}
    {scan : PackageScan} (h : found disk root entry sources = .ok scan) :
    scan.config = ⟨(PackageScope.ofEntry entry sources).sources,
      (PackageScope.ofEntry entry sources).ignores, scan.usage.compilerOptions⟩ := by
  obtain ⟨paths, -, rfl⟩ := found_eq_ok h
  rfl

/-- **The packages that `recordAll` puts in** over those that are left of a configuration. -/
theorem describes_recordAll (store : ConfigStore) {sources : String} {topology : List TopologyEntry}
    {scans : List PackageScan} (hlength : scans.length = topology.length)
    (hnd : (topology.map (·.key)).Nodup)
    (hscans : ∀ f ∈ topology.zip scans, ∃ disk root,
      PackageScan.found disk root f.1 sources = .ok f.2) :
    Describes ((store.retain (topology.map (·.key))).recordAll topology scans).config.packages
      sources topology scans := by
  have hkeys := ConfigStore.keys_foundPackages hlength
  rw [ConfigStore.recordAll_eq]
  refine ⟨hnd, fun key => ?_, fun f hf => ?_⟩
  · rw [Dict.mem_keys]
    constructor
    · intro hsome
      by_contra hno
      rw [Dict.get?_foldl_insert (hkeys ▸ hno), ConfigStore.retain, Dict.get?_filter,
        if_neg (by simpa using hno)] at hsome
      cases hsome
    · intro hkey
      rw [← hkeys] at hkey
      obtain ⟨e, he, rfl⟩ := List.mem_map.1 hkey
      rw [Dict.get?_foldl_insert_of_mem (hkeys ▸ hnd) he]
      rfl
  · obtain ⟨disk, root, hfound⟩ := hscans f hf
    rw [← PackageScan.config_of_found hfound]
    have hmem : (f.1.key, f.2.config) ∈ ConfigStore.foundPackages topology scans :=
      List.mem_map_of_mem hf
    exact Dict.get?_foldl_insert_of_mem (hkeys ▸ hnd) hmem _

/-- What `topology` and `scans` describe alike is the same. -/
theorem Describes.unique {packages packages' : Dict PackageConfig} {sources : String}
    {topology : List TopologyEntry} {scans : List PackageScan}
    (hlength : scans.length = topology.length) (h : Describes packages sources topology scans)
    (h' : Describes packages' sources topology scans) : packages' = packages := by
  refine Dict.ext_get? fun key => ?_
  by_cases hkey : key ∈ topology.map (·.key)
  · have hzip : (topology.zip scans).map Prod.fst = topology :=
      List.map_fst_zip (Nat.le_of_eq hlength.symm)
    rw [← hzip, List.map_map] at hkey
    obtain ⟨f, hf, rfl⟩ := List.mem_map.1 hkey
    exact (h'.values f hf).trans (h.values f hf).symm
  · have hnone : ∀ {dict : Dict PackageConfig}, key ∉ dict.keys → dict.get? key = none := by
      intro dict hno
      rw [Dict.mem_keys] at hno
      simpa using hno
    rw [hnone (mt (h.keys key).1 hkey), hnone (mt (h'.keys key).1 hkey)]

/-! ## Other members -/

/-- The members of the configuration that is held at `path`, if one is. -/
def heldMembers (disk : Disk) (path : String) : List (String × Json) :=
  match disk.read path with
  | .ok text =>
    match Json.parse text with
    | .ok (.object members) => members
    | _ => []
  | .error _ => []

/-- Beside its packages `config` has the members that were `held`, and the `defaults` for those that
were not. -/
structure KeepsMembers (held : List (String × Json)) (defaults config : MigrationConfig) : Prop where
  version : (findMember? "version" held).getD (.string defaults.version) = .string config.version
  prettier : (findMember? "prettier" held).getD (.bool defaults.prettier) = .bool config.prettier
  recast : (findMember? "recast" held).getD (.bool defaults.recast) = .bool config.recast
  other : ∀ key, config.other.get? key =
    if key ∈ MigrationConfig.knownKeys then none else findMember? key held

theorem Json.findMember?_of_optionalMember {α : Type} {key : String} {read : Json → Except Mismatch α}
    {write : α → Json} (hread : ∀ value a, read value = .ok a → value = write a)
    {members : List (String × Json)} {a : α} (h : optionalMember key read members = .ok (some a)) :
    findMember? key members = some (write a) := by
  unfold optionalMember at h
  split at h
  · next value hvalue =>
    obtain ⟨b, hb, hsome⟩ := map_eq_ok_iff.1 h
    obtain rfl := Option.some.inj hsome
    rw [hvalue, hread value b hb]
  · cases h

theorem Json.eq_of_asText {value : Json} {text : String} (h : value.asText = .ok text) :
    value = .string text := by
  cases value <;> simp_all [asText, mismatch]

theorem Json.eq_of_asBool {value : Json} {b : Bool} (h : value.asBool = .ok b) :
    value = .bool b := by
  cases value <;> simp_all [asBool, mismatch]

/-- **What `ConfigStore.parse` reads from a file** has its members. -/
theorem keepsMembers_of_parse {prettier recast : Bool} {text : String} {config : MigrationConfig}
    (h : ConfigStore.parse (.fresh prettier recast) text = .ok config) :
    ∃ held, Json.parse text = .ok (.object held) ∧
      KeepsMembers held (.fresh prettier recast) config := by
  obtain ⟨held, hparse, hmerged⟩ := ConfigStore.exists_object_of_parse h
  have hasc := (Json.parse_sound hparse).2.1
  have hread := MigrationConfig.mergedOver_eq_ok.1 hmerged
  -- a known member is that of the file, or else the default
  have hknown : ∀ key value default,
      findMember? key (MigrationConfig.fresh prettier recast).members = some default →
      findMember? key (MigrationConfig.merged prettier recast held).entries = some value →
      (findMember? key held).getD default = value := by
    intro key value default hdefault hvalue
    have hget := (MigrationConfig.get?_merged hasc prettier recast key).symm.trans hvalue
    rw [hdefault] at hget
    cases hk : findMember? key held with
    | none => simpa [hk] using hget
    | some found => simpa [hk] using hget
  exact ⟨held, hparse,
    hknown _ _ _ rfl (Json.findMember?_of_optionalMember (fun _ _ => Json.eq_of_asText) hread.version),
    hknown _ _ _ rfl (Json.findMember?_of_optionalMember (fun _ _ => Json.eq_of_asBool) hread.prettier),
    hknown _ _ _ rfl (Json.findMember?_of_optionalMember (fun _ _ => Json.eq_of_asBool) hread.recast),
    MigrationConfig.other_of_mergedOver hasc hmerged⟩

/-- **A configuration that `openAt` came to** has the members that are held, or the defaults. -/
theorem keepsMembers_of_openAt {p q : Progress} {root : String} {prettier recast : Bool}
    {store : ConfigStore} (hopen : openAt root (.fresh prettier recast) p = (.ok store, q)) :
    KeepsMembers (heldMembers p.disk (Path.join root fileName)) (.fresh prettier recast)
      store.config := by
  cases hexists : p.disk.pathExists (Path.join root fileName) with
  | true =>
    obtain ⟨hload, -⟩ :=
      (ConfigStore.runs_openAt_found hexists (.fresh prettier recast)).of_eq hopen
    obtain ⟨text, hread, -, hparse⟩ := ConfigStore.load_eq_ok.1 hload
    obtain ⟨held, hobject, hkeeps⟩ := keepsMembers_of_parse hparse
    simpa only [heldMembers, hread, hobject] using hkeeps
  | false =>
    have hnone : heldMembers p.disk (Path.join root fileName) = [] := by
      unfold Disk.pathExists at hexists
      cases hl : p.disk.locate (Path.join root fileName) with
      | ok place =>
        rw [hl] at hexists
        cases hexists
      | error e => simp only [heldMembers, Disk.read, Disk.readBytes_of_error hl]
    obtain ⟨_, _, hdisk, hopen⟩ := Session.bind_eq_ok hopen
    cases hdisk
    rw [if_neg (by simp [hexists])] at hopen
    obtain ⟨_, _, -, hopen⟩ := Session.bind_eq_ok hopen
    obtain ⟨_, _, -, hopen⟩ := Session.bind_eq_ok hopen
    cases hopen
    rw [hnone]
    refine ⟨rfl, rfl, rfl, fun key => ?_⟩
    rw [show findMember? key ([] : List (String × Json)) = none from rfl, ite_self]
    rfl

/-! ## Migrations that came to a report -/

namespace Migration

open PackageScope (defaultSources)

/-- A migration of `disk` that came to a `report`: it has opened a configuration, found the
manifests and passed all packages. -/
structure Completed (settings : Settings) (disk : Disk) (report : Report) (left : Disk)
    (root : String) (place : List String) (store : ConfigStore) (opened : Disk)
    (records : List ManifestRecord) (scans : List PackageScan) : Prop where
  found : settings.findRoot disk = .ok root
  path : report.configPath = Path.join root fileName
  savable : Savable disk root place
  since : Since place disk opened
  kept : Kept settings.prettier settings.recast root place opened store
  members : KeepsMembers (heldMembers disk report.configPath)
    (.fresh settings.prettier settings.recast) store.config
  load : ManifestRecord.load opened root = .ok records
  reports : ∃ conversions, report = reportOf root records scans conversions
  passage : Passage settings.prettier settings.recast root settings.sources place
    (store.retain ((Topology.build records).map (·.key))) opened (Topology.build records) scans left

/-- **A migration that came to a `report`** is one of these. -/
theorem exists_completed {settings : Settings} {collaborators : Option Collaborators} {disk : Disk}
    {report : Report} {p : Progress} (hlegal : disk.Legal)
    (hrun : plan settings collaborators { disk } = (.ok report, p))
    (hfree : (disk.entry (report.configPath ++ ".tmp")).isOk = false)
    (hwhole : ∀ text, disk.read report.configPath = .ok text → ConfigStore.WholeText text) :
    ∃ root place store opened records scans,
      Completed settings disk report p.disk root place store opened records scans := by
  obtain ⟨root, mid, hroot, hmid, hplan⟩ := exists_root_of_plan hrun
  obtain rfl : mid.disk = disk := hmid
  obtain ⟨hpath, store, opened, records, hopen, hload⟩ := exists_opened_of_planAt hplan
  have hmembers := keepsMembers_of_openAt hopen
  rw [← hpath] at hmembers
  rw [hpath] at hfree hwhole
  obtain ⟨place, done, rest, scans, conversions, hsavable, hsince, hkept, hsplit, hpassage, hends⟩ :=
    exists_passage_of_plan hlegal hroot hfree hwhole hopen hload hrun
  cases rest with
  | cons entry rest =>
    obtain ⟨failure, -, hfails⟩ := hends
    cases hfails
  | nil =>
    rw [List.append_nil] at hsplit
    rw [← hsplit] at hpassage
    exact ⟨root, place, store, opened.disk, records, scans, hroot, hpath, hsavable, hsince, hkept,
      hmembers, hload, ⟨conversions, Except.ok.inj hends⟩, hpassage⟩

namespace Completed

variable {settings settings' : Settings} {disk left left' opened opened' : Disk}
  {report report' : Report} {root : String} {place : List String} {store store' : ConfigStore}
  {records records' : List ManifestRecord} {scans scans' : List PackageScan}

/-- The configuration that is left when the `scans` are recorded. -/
def config (store : ConfigStore) (records : List ManifestRecord) (scans : List PackageScan) :
    MigrationConfig :=
  ((store.retain ((Topology.build records).map (·.key))).recordAll (Topology.build records)
    scans).config

section
variable (h : Completed settings disk report left root place store opened records scans)
include h

theorem opens : (openAt root (.fresh settings.prettier settings.recast)).Runs left
    (.ok ⟨report.configPath, config store records scans⟩) left := by
  rw [h.path, ← h.passage.kept.path]
  exact h.passage.kept.opens

theorem describes : Describes (config store records scans).packages settings.sources
    (Topology.build records) scans := by
  refine describes_recordAll store h.passage.length
    (Topology.nodup_keys h.kept.savable.wellFormed h.load) fun f hf => ?_
  obtain ⟨before, -, hfound⟩ := h.passage.found f hf
  exact ⟨before, root, hfound⟩

theorem keys_eq : (Topology.build records).map (·.key) = report.packages.map (·.key) := by
  obtain ⟨conversions, rfl⟩ := h.reports
  have hfst : (List.zip (Topology.build records) scans).map Prod.fst = Topology.build records :=
    List.map_fst_zip (Nat.le_of_eq h.passage.length.symm)
  calc (Topology.build records).map (·.key)
      = ((List.zip (Topology.build records) scans).map Prod.fst).map (·.key) := by rw [hfst]
    _ = (reportOf root records scans conversions).packages.map (·.key) := by
      rw [reportOf, List.map_zipWith, List.map_map, List.zip, List.map_zipWith]
      rfl

theorem keepsMembers : KeepsMembers (heldMembers disk report.configPath)
    (.fresh settings.prettier settings.recast) (config store records scans) := by
  have hconfig : config store records scans =
      { store.config with packages := (config store records scans).packages } := by
    rw [config, ConfigStore.recordAll_eq]
    rfl
  rw [hconfig]
  exact ⟨h.members.version, h.members.prettier, h.members.recast, h.members.other⟩

/-- Where at most a file stood at the path of the configuration, one stands there on the disk
`opened`. -/
theorem settled (hready : Ready disk root place) : Settled opened root place := by
  rcases h.since with rfl | ⟨content, rfl⟩
  · refine ⟨hready, ?_⟩
    rcases hready.room.free with hnone | hfile
    · -- the defaults would have been saved
      have hget : opened.root.get? (place ++ [fileName]) = none := by
        simpa [Node.kindAt] using hnone
      obtain ⟨-, hsame⟩ := h.kept.opens.unique (ConfigStore.runs_openAt_absent hready hget _)
      rw [hsame]
      exact (hready.grown _).file
    · exact hfile
  · exact hready.settled content

/-- **All comes from a `Survey`** of the disk `opened`, if no link leads to the configuration
there. -/
theorem survey (hsources : settings.sources = defaultSources) (hready : Ready disk root place)
    (hlinks : NoLinkTo opened.root (place ++ [fileName])) :
    Survey.ofDisk opened root = .ok ⟨records, scans⟩ := by
  have hsettled := h.settled hready
  have hscans : (Topology.build records).mapM
      (PackageScan.found opened root · defaultSources) = .ok scans := by
    refine mapM_eq_ok_iff.2 (List.forall₂_iff_zip.2 ⟨h.passage.length.symm, fun {e scan} hf => ?_⟩)
    obtain ⟨before, hsince, hfound⟩ := h.passage.found (e, scan) hf
    rw [hsources] at hfound
    rw [← hfound]
    exact (Survey.found_one hsettled hsince hlinks
      (Topology.no_backslash_dirPath h.load (List.of_mem_zip hf).1)).symm
  rw [Survey.ofDisk, h.load]
  dsimp only [bind, Except.bind]
  rw [hscans]

end

end Completed

/-- A `Ready` disk stays `Legal` when its configuration is written. -/
theorem legal_withFile {disk : Disk} {root : String} {place : List String} (hlegal : disk.Legal)
    (h : Ready disk root place) (content : ByteArray) :
    (disk.withFile (place ++ [fileName]) content).Legal :=
  ⟨h.savable.wellFormed_withFile content, (h.grown content).kindAt hlegal.workingDir⟩

/-- **Another configuration makes no difference** to the `packages` of the one that is left, when no
symbolic link leads to it. -/
theorem packages_of_other_config {settings settings' : Settings}
    {collaborators' : Option Collaborators} {disk left : Disk} {report report' : Report} {root : String}
    {place : List String} {store : ConfigStore} {opened : Disk} {records : List ManifestRecord}
    {scans : List PackageScan} (hlegal : disk.Legal)
    (h : Completed settings disk report left root place store opened records scans)
    (hsources : settings.sources = defaultSources) (hsources' : settings'.sources = defaultSources)
    (hsame : settings'.root = settings.root)
    (hplain : disk.root.kindAt (place ++ [fileName]) = none ∨
      disk.root.kindAt (place ++ [fileName]) = some .file)
    (hlinks : NoLinkTo left.root (place ++ [fileName])) {content : ByteArray}
    (hwhole : ∀ text, String.fromUTF8? content = some text → ConfigStore.WholeText text)
    {p' : Progress} (hrun : plan settings' collaborators'
      { disk := disk.withFile (place ++ [fileName]) content } = (.ok report', p')) :
    ∃ config', (openAt root (.fresh settings'.prettier settings'.recast)).Runs p'.disk
        (.ok ⟨report'.configPath, config'⟩) p'.disk ∧
      config'.packages = (Completed.config store records scans).packages := by
  have hready : Ready disk root place :=
    ⟨hlegal.wellFormed, h.savable.located, ⟨h.savable.home, hplain⟩, h.savable.free⟩
  have hsettled := h.settled hready
  have hother := hready.settled content
  have hlinks₁ : NoLinkTo opened.root (place ++ [fileName]) :=
    hlinks.congr (hsettled.alike h.passage.since).kindAt
  -- both migrations open disks that differ in the configuration alone
  have hsince : Since place opened (disk.withFile (place ++ [fileName]) content) := by
    rcases h.since with rfl | ⟨old, rfl⟩
    · exact .withFile content
    · rw [← ConfigStore.withFile_withFile disk _ old content]
      exact .withFile content
  have hlinks₂ := hlinks₁.congr (hsettled.alike hsince).kindAt.symm
  have hroot := Settings.findRoot_since hready (.withFile content) hother hlinks₂ hsame h.found
  have hpath := configPath_of_plan (p := { disk := _ }) hroot hrun
  have hfree := hother.savable.entry_free
  rw [← hpath] at hfree
  have hwhole' : ∀ text, (disk.withFile (place ++ [fileName]) content).read report'.configPath =
      .ok text → ConfigStore.WholeText text := by
    intro text hread
    rw [hpath, hother.read_config (Node.get?_put_file hready.room content)] at hread
    cases htext : String.fromUTF8? content with
    | none => simp [htext] at hread
    | some found =>
      obtain rfl : found = text := by simpa [htext] using hread
      exact hwhole found htext
  obtain ⟨root', place', store', opened', records', scans', h'⟩ :=
    exists_completed (legal_withFile hlegal hready content) hrun hfree hwhole'
  obtain rfl : root = root' := Except.ok.inj (hroot.symm.trans h'.found)
  obtain rfl : place = place' := Except.ok.inj (hother.located.symm.trans h'.savable.located)
  have hlinks₃ := hlinks₂.congr (hother.alike h'.since).kindAt.symm
  -- so they come to the same survey
  have hsurvey := h.survey hsources hready hlinks₁
  have hsurvey' := h'.survey hsources' hother.toReady hlinks₃
  rw [Survey.ofDisk_since hsettled (hsince.trans h'.since) hlinks₁, hsurvey] at hsurvey'
  cases hsurvey'
  have hdescribes := h'.describes
  rw [hsources', ← hsources] at hdescribes
  exact ⟨_, h'.opens, h.describes.unique h.passage.length hdescribes⟩

/-- **The packages of a migration come from the tree.** A migration that came to a `report` leaves a
configuration `config` that `Describes` the packages of `records` by their `scans`, which it found
and reports, and that keeps all other members of the one that was there (`KeepsMembers`). Its
packages are the same whatever the `content` of the configuration was, when the configuration is no
symbolic link and none leads to it. -/
theorem packages_of_plan {settings : Settings} {collaborators : Option Collaborators} {disk : Disk}
    {report : Report} {p : Progress} (hlegal : disk.Legal)
    (hrun : plan settings collaborators { disk } = (.ok report, p))
    (hfree : (disk.entry (report.configPath ++ ".tmp")).isOk = false)
    (hwhole : ∀ text, disk.read report.configPath = .ok text → ConfigStore.WholeText text) :
    ∃ root place opened records scans config, settings.findRoot disk = .ok root ∧
      disk.locate root = .ok place ∧ report.configPath = Path.join root fileName ∧
      Since place disk opened ∧ ManifestRecord.load opened root = .ok records ∧
      scans.length = (Topology.build records).length ∧
      (∃ conversions, report = reportOf root records scans conversions) ∧
      (∀ f ∈ (Topology.build records).zip scans, ∃ before, Since place disk before ∧
        PackageScan.found before root f.1 settings.sources = .ok f.2) ∧
      (openAt root (.fresh settings.prettier settings.recast)).Runs p.disk
        (.ok ⟨report.configPath, config⟩) p.disk ∧
      Describes config.packages settings.sources (Topology.build records) scans ∧
      KeepsMembers (heldMembers disk report.configPath) (.fresh settings.prettier settings.recast)
        config ∧
      ∀ (settings' : Settings) (collaborators' : Option Collaborators) (content : ByteArray)
        (report' : Report) (p' : Progress),
        settings.sources = defaultSources → settings'.sources = defaultSources →
        settings'.root = settings.root →
        (disk.root.kindAt (place ++ [fileName]) = none ∨
          disk.root.kindAt (place ++ [fileName]) = some .file) →
        NoLinkTo p.disk.root (place ++ [fileName]) →
        (∀ text, String.fromUTF8? content = some text → ConfigStore.WholeText text) →
        plan settings' collaborators' { disk := disk.withFile (place ++ [fileName]) content } =
          (.ok report', p') →
        ∃ config', (openAt root (.fresh settings'.prettier settings'.recast)).Runs p'.disk
            (.ok ⟨report'.configPath, config'⟩) p'.disk ∧
          config'.packages = config.packages := by
  obtain ⟨root, place, store, opened, records, scans, h⟩ :=
    exists_completed hlegal hrun hfree hwhole
  refine ⟨root, place, opened, records, scans, _, h.found, h.savable.located, h.path, h.since,
    h.load, h.passage.length, h.reports, (h.passage.earlier h.since).found, h.opens, h.describes,
    h.keepsMembers, ?_⟩
  intro settings' collaborators' content report' p' hsources hsources' hsame hplain hlinks hwhole'
    hrun'
  exact packages_of_other_config hlegal h hsources hsources' hsame hplain hlinks hwhole' hrun'

/-- A repository with a package and a configuration that knows another one. -/
def movedRepository : Disk :=
  ⟨.dir [("flow-ts-config.json",
      .file "\x7b\"packages\":\x7b\"old\":[\"\",[]]\x7d,\"x\":1\x7d".toUTF8),
    ("package.json", .file "\x7b\x7d".toUTF8)], []⟩

/-- What it comes to is also what comes of a configuration without packages. -/
theorem packages_of_plan_moved : ∃ records scans config report report' p p',
    plan { root := some "/" } none { disk := movedRepository } = (.ok report, p) ∧
      plan { root := some "/" } none
        { disk := movedRepository.withFile [fileName] "\x7b\x7d".toUTF8 } = (.ok report', p') ∧
      (openAt "/" (.fresh true true)).Runs p.disk (.ok ⟨"/flow-ts-config.json", config⟩) p.disk ∧
      Describes config.packages defaultSources (Topology.build records) scans ∧
      ∃ config', (openAt "/" (.fresh true true)).Runs p'.disk
          (.ok ⟨report'.configPath, config'⟩) p'.disk ∧ config'.packages = config.packages := by
  have hlegal : movedRepository.Legal := by decide +kernel
  have hroot : Settings.findRoot { root := some "/" } movedRepository = .ok "/" := by
    decide +kernel
  have hplace : movedRepository.locate "/" = .ok [] := by decide +kernel
  have hok : (plan { root := some "/" } none { disk := movedRepository }).1.isOk = true := by
    decide +kernel
  have hok' : (plan { root := some "/" } none
      { disk := movedRepository.withFile [fileName] "\x7b\x7d".toUTF8 }).1.isOk = true := by
    decide +kernel
  have hnone : (plan { root := some "/" } none { disk := movedRepository }).2.disk.root.Throughout
      NoLinks := by decide +kernel
  have hfree : (movedRepository.entry ("/flow-ts-config.json" ++ ".tmp")).isOk = false := by
    decide +kernel
  have hfile : movedRepository.root.kindAt ([] ++ [fileName]) = some .file := by decide +kernel
  have hwhole : ∀ text ∈ (movedRepository.read "/flow-ts-config.json").toOption,
      ConfigStore.WholeText text := by decide +kernel
  have hwhole' : ∀ text ∈ String.fromUTF8? "\x7b\x7d".toUTF8, ConfigStore.WholeText text := by
    decide +kernel
  obtain ⟨report, p, hrun⟩ := exists_of_isOk hok
  obtain ⟨report', p', hrun'⟩ := exists_of_isOk hok'
  rw [hrun] at hnone
  have hpath : report.configPath = "/flow-ts-config.json" :=
    (configPath_of_plan hroot hrun).trans (by decide)
  rw [← hpath] at hfree hwhole
  obtain ⟨root, place, opened, records, scans, config, hfound, hlocated, -, -, -, -, -, -, hopens,
      hdescribes, -, hother⟩ :=
    packages_of_plan hlegal hrun hfree fun text hread => hwhole text (by rw [hread]; rfl)
  obtain rfl : "/" = root := Except.ok.inj (hroot.symm.trans hfound)
  obtain rfl : [] = place := Except.ok.inj (hplace.symm.trans hlocated)
  obtain ⟨config', hopens', hsame⟩ := hother { root := some "/" } none "\x7b\x7d".toUTF8 report' p'
    rfl rfl rfl (.inr hfile) (.of_throughout hnone _)
    (fun text htext => hwhole' text (by simpa using htext)) hrun'
  rw [hpath] at hopens
  exact ⟨records, scans, config, report, report', p, p', hrun, hrun', hopens, hdescribes, config',
    hopens', hsame⟩

/-- A migration that came to a report leaves a configuration without packages only if `n`, the
number of those reported, is zero. -/
theorem exists_left (n : Nat) (disk : Disk) (hlegal : disk.Legal)
    (hroot : Settings.findRoot { root := some "/" } disk = .ok "/")
    (hfree : (disk.entry "/flow-ts-config.json.tmp").isOk = false)
    (hwhole : ∀ text ∈ (disk.read "/flow-ts-config.json").toOption, ConfigStore.WholeText text)
    (hn : (plan { root := some "/" } none { disk }).1.toOption.map (·.packages.length) = some n) :
    ∃ report p config, plan { root := some "/" } none { disk } = (.ok report, p) ∧
      (openAt "/" (.fresh true true)).Runs p.disk (.ok ⟨report.configPath, config⟩) p.disk ∧
      (config.packages.keys = [] ↔ n = 0) := by
  obtain ⟨report, p, hrun, rfl⟩ := exists_of_map_toOption hn
  have hpath : report.configPath = "/flow-ts-config.json" :=
    (configPath_of_plan hroot hrun).trans (by decide)
  obtain ⟨root, place, store, opened, records, scans, h⟩ := exists_completed hlegal hrun
    (by rw [hpath]; exact hfree)
    (by rw [hpath]; exact fun text hread => hwhole text (by rw [hread]; rfl))
  obtain rfl : "/" = root := Except.ok.inj (hroot.symm.trans h.found)
  refine ⟨report, p, _, hrun, h.opens, ?_⟩
  have hkeys := h.describes.keys
  simp only [h.keys_eq] at hkeys
  rw [List.eq_nil_iff_forall_not_mem, List.length_eq_zero_iff, ← List.map_eq_nil_iff (f := (·.key)),
    List.eq_nil_iff_forall_not_mem]
  exact forall_congr' fun key => not_congr (hkeys key)

/-- A configuration with a package whose options have a line of their own, which is the name of a
directory. -/
def strictText : String := "\x7b\"packages\":\x7b\"\":[\"\",[],\x7b\"strict\":\ntrue\n\x7d]\x7d\x7d"

/-- A repository where one of the ignore file and the configuration is a link to the other. -/
def sharedRepository (ignores config : Node) : Disk :=
  ⟨.dir [(".gitignore", ignores), ("flow-ts-config.json", config),
    ("true", .dir [("package.json", .file "\x7b\x7d".toUTF8)])], []⟩

/-- For the migrations that are `allowed` by their disk and by the one that they leave, the packages
do not depend on the text that the configuration had. -/
def IgnoresText (allowed : Disk → Disk → Prop) : Prop :=
  ∀ (disk : Disk) (place : List String) (content : ByteArray) (report report' : Report)
    (p p' : Progress) (config config' : MigrationConfig),
    disk.Legal → (disk.entry "/flow-ts-config.json.tmp").isOk = false →
    disk.locate "/flow-ts-config.json" = .ok place →
    (∀ text ∈ (disk.read "/flow-ts-config.json").toOption, ConfigStore.WholeText text) →
    (∀ text ∈ String.fromUTF8? content, ConfigStore.WholeText text) →
    plan { root := some "/" } none { disk } = (.ok report, p) →
    plan { root := some "/" } none { disk := disk.withFile place content } = (.ok report', p') →
    allowed disk p.disk →
    (openAt "/" (.fresh true true)).Runs p.disk (.ok ⟨report.configPath, config⟩) p.disk →
    (openAt "/" (.fresh true true)).Runs p'.disk (.ok ⟨report'.configPath, config'⟩) p'.disk →
    config'.packages = config.packages

/-- **Links make a difference**: where rules are read from the configuration, because a link leads
to it or because it is a link itself, the packages that it knows decide which packages are found. -/
theorem not_packages_of_plan_of_links :
    (¬IgnoresText fun disk _ => disk.root.kindAt [fileName] = some .file) ∧
      ¬IgnoresText fun _ left => NoLinkTo left.root [fileName] := by
  constructor <;> intro h
  · have hfile : (sharedRepository (.link "flow-ts-config.json") (.file strictText.toUTF8)
        ).root.kindAt [fileName] = some .file := by decide +kernel
    obtain ⟨report, p, config, hrun, hopens, hnone⟩ := exists_left 0
      (sharedRepository (.link "flow-ts-config.json") (.file strictText.toUTF8))
      (by decide +kernel) (by decide +kernel) (by decide +kernel) (by decide +kernel)
      (by decide +kernel)
    obtain ⟨report', p', config', hrun', hopens', hsome⟩ := exists_left 1
      ((sharedRepository (.link "flow-ts-config.json") (.file strictText.toUTF8)).withFile
        [fileName] "\x7b\x7d".toUTF8)
      (by decide +kernel) (by decide +kernel) (by decide +kernel) (by decide +kernel)
      (by decide +kernel)
    have hsame := h _ [fileName] _ report report' p p' config config' (by decide +kernel)
      (by decide +kernel) (by decide +kernel) (by decide +kernel) (by decide +kernel) hrun hrun'
      hfile hopens hopens'
    exact absurd (hsome.1 (hsame ▸ hnone.2 rfl)) (by decide)
  · have hleft : (plan { root := some "/" } none
        { disk := sharedRepository (.file strictText.toUTF8) (.link ".gitignore") }
        ).2.disk.root.Throughout NoLinks := by decide +kernel
    obtain ⟨report, p, config, hrun, hopens, hnone⟩ := exists_left 0
      (sharedRepository (.file strictText.toUTF8) (.link ".gitignore"))
      (by decide +kernel) (by decide +kernel) (by decide +kernel) (by decide +kernel)
      (by decide +kernel)
    obtain ⟨report', p', config', hrun', hopens', hsome⟩ := exists_left 1
      ((sharedRepository (.file strictText.toUTF8) (.link ".gitignore")).withFile
        [".gitignore"] "\x7b\x7d".toUTF8)
      (by decide +kernel) (by decide +kernel) (by decide +kernel) (by decide +kernel)
      (by decide +kernel)
    rw [hrun] at hleft
    have hsame := h _ [".gitignore"] _ report report' p p' config config' (by decide +kernel)
      (by decide +kernel) (by decide +kernel) (by decide +kernel) (by decide +kernel) hrun hrun'
      (.of_throughout hleft _) hopens hopens'
    exact absurd (hsome.1 (hsame ▸ hnone.2 rfl)) (by decide)

end Migration

end FlowMigration
