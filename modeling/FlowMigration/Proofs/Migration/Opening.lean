import FlowMigration.Proofs.Config.RoundTrip
import FlowMigration.Proofs.Config.Saving
import FlowMigration.Proofs.Migration.Survey
import FlowMigration.Proofs.Walk.Reach

/-!
# How a migration begins

* `runs_openAt_found`, `runs_openAt_missing`: the configuration is read, or made up and saved.
* `exists_savable`: where a configuration was opened there is a directory that it can be saved in.
* `eq_pathOf_of_findRoot`, `findRoot_since`: a root is an absolute path, and is found again.
* `exists_opened_of_planAt`: what a migration that came to a report has found.
-/

namespace FlowMigration

namespace ConfigStore

variable {disk disk' : Disk} {root : String} {place : List String}

/-! ## Opening a configuration -/

theorem Ready.ne_empty (h : Ready disk root place) : root ≠ "" := (Disk.locate_eq_ok.1 h.located).2.1

theorem Settled.locate_config (h : Settled disk root place) :
    disk.locate (Path.join root fileName) = .ok (place ++ [fileName]) := by
  rw [← Path.joinAll_singleton]
  exact Disk.locate_joinAll h.located (List.forall_mem_singleton.2 legal_fileName) (.inr h.file)

theorem Settled.read_config (h : Settled disk root place) {content : ByteArray}
    (hg : disk.root.get? (place ++ [fileName]) = some (.file content)) :
    disk.read (Path.join root fileName) =
      (String.fromUTF8? content).elim (.error .notUtf8) .ok := by
  simp [Disk.read, Disk.readBytes, Disk.node, h.locate_config, hg]

theorem Ready.entry_config (h : Ready disk root place) {node : Node} :
    disk.entry (Path.join root fileName) = .ok node ↔
      disk.root.get? (place ++ [fileName]) = some node := by
  rw [Disk.entry_eq_ok, Disk.place_join h.located h.room.home legal_fileName]
  simp

/-- A path of the configuration that leads somewhere is read by `load`. -/
theorem runs_openAt_found (hexists : disk.pathExists (Path.join root fileName) = true)
    (defaults : MigrationConfig) :
    (openAt root defaults).Runs disk (load defaults (Path.join root fileName) disk) disk := by
  unfold openAt
  refine .bind .read ?_
  rw [if_pos hexists]
  have hlook : (Session.look (load defaults (Path.join root fileName))).Runs disk
      (load defaults (Path.join root fileName) disk) disk := .look _
  cases hload : load defaults (Path.join root fileName) disk with
  | error failure => exact .bind_error (hload ▸ hlook)
  | ok store => exact .bind (hload ▸ hlook) (.bind (.info _) (.pure _))

theorem runs_openAt_file (h : Settled disk root place) (defaults : MigrationConfig) :
    (openAt root defaults).Runs disk (load defaults (Path.join root fileName) disk) disk := by
  refine runs_openAt_found ?_ defaults
  rw [Disk.pathExists, h.locate_config]
  rfl

/-- What `load` cannot read ends the opening, and nothing has happened. -/
theorem openAt_eq_error {p : Progress} {defaults : MigrationConfig} {failure : Failure}
    (hexists : p.disk.pathExists (Path.join root fileName) = true)
    (hload : load defaults (Path.join root fileName) p.disk = .error failure) :
    openAt root defaults p = (.error failure, p) := by
  simp [openAt, bind, Session.disk, Session.look, hexists, hload]

theorem fromUTF8?_toUTF8 (text : String) : String.fromUTF8? text.toUTF8 = some text := by
  have hvalid : text.toUTF8.IsValidUTF8 := text.isValidUTF8
  rw [String.fromUTF8?, dif_pos hvalid]
  rfl

theorem toUTF8_of_fromUTF8? {content : ByteArray} {text : String}
    (h : String.fromUTF8? content = some text) : text.toUTF8 = content := by
  unfold String.fromUTF8? at h
  split at h
  · rw [← Option.some.inj h]
    rfl
  · cases h

/-- A `text` that stands for a configuration is read as it. -/
theorem runs_openAt_text (h : Settled disk root place) {text : String}
    (hg : disk.root.get? (place ++ [fileName]) = some (.file text.toUTF8))
    {defaults config : MigrationConfig} (hparse : parse defaults text = .ok config) :
    (openAt root defaults).Runs disk (.ok ⟨Path.join root fileName, config⟩) disk := by
  have hload : load defaults (Path.join root fileName) disk =
      .ok ⟨Path.join root fileName, config⟩ := by
    simp only [load, h.read_config hg, fromUTF8?_toUTF8, Option.elim_some, hparse]
  exact hload ▸ runs_openAt_file h defaults

/-- What `load` comes to is what a text stands for. -/
theorem load_eq_ok {defaults : MigrationConfig} {path : String} {store : ConfigStore} :
    load defaults path disk = .ok store ↔ ∃ text, disk.read path = .ok text ∧
      store.path = path ∧ parse defaults text = .ok store.config := by
  unfold load
  cases hread : disk.read path with
  | error error => simp
  | ok text =>
    cases hparse : parse defaults text with
    | error fault => simp [hparse]
    | ok config =>
      obtain ⟨path', config'⟩ := store
      simp [hparse, eq_comm]

/-- What was read from a configuration file into `store` is what its text stands for. -/
theorem exists_text_of_load (h : Settled disk root place) {defaults : MigrationConfig}
    {store : ConfigStore} (hload : load defaults (Path.join root fileName) disk = .ok store) :
    ∃ text, disk.root.get? (place ++ [fileName]) = some (.file text.toUTF8) ∧
      store.path = Path.join root fileName ∧ parse defaults text = .ok store.config := by
  obtain ⟨text, hread, hpath, hparse⟩ := load_eq_ok.1 hload
  obtain ⟨content, hg⟩ := Node.kindAt_eq_file.1 h.file
  rw [h.read_config hg] at hread
  cases htext : String.fromUTF8? content with
  | none => simp [htext] at hread
  | some found =>
    obtain rfl : found = text := by simpa [htext] using hread
    exact ⟨found, by rw [hg, toUTF8_of_fromUTF8? htext], hpath, hparse⟩

/-- Where the path of the configuration leads nowhere, the `defaults` are saved. -/
theorem runs_openAt_missing (h : Savable disk root place)
    (hmissing : disk.pathExists (Path.join root fileName) = false) (defaults : MigrationConfig) :
    let store : ConfigStore := ⟨Path.join root fileName, defaults⟩
    (openAt root defaults).Runs disk (.ok store)
      (disk.withFile (place ++ [fileName]) store.text.toUTF8) := by
  unfold openAt
  refine .bind .read ?_
  rw [if_neg (by simp [hmissing])]
  exact .bind (.info _) (.bind (runs_save h rfl) (.pure _))

/-- So are the `defaults` where there is no configuration. -/
theorem runs_openAt_absent (h : Ready disk root place)
    (hnone : disk.root.get? (place ++ [fileName]) = none) (defaults : MigrationConfig) :
    let store : ConfigStore := ⟨Path.join root fileName, defaults⟩
    (openAt root defaults).Runs disk (.ok store)
      (disk.withFile (place ++ [fileName]) store.text.toUTF8) := by
  refine runs_openAt_missing h.savable ?_ defaults
  rw [Disk.pathExists]
  cases hl : disk.locate (Path.join root fileName) with
  | error e => rfl
  | ok there =>
    obtain ⟨place', hl', -, hk⟩ :=
      Disk.exists_entry_of_locate_join h.ne_empty legal_fileName.toIsName hl
    obtain rfl : place = place' := Except.ok.inj (h.located ▸ hl')
    exact absurd (by rw [Node.kindAt, hnone, Option.map_none]) hk

/-- **Where the other file was written**, to whatever place, there stands a directory at `root`. -/
theorem exists_home_of_write {text : String} (hne : root ≠ "")
    (h : disk.write (Path.join root fileName ++ ".tmp") text = .ok disk') :
    ∃ place, disk.locate root = .ok place ∧ disk.root.kindAt place = some .dir ∧
      ((∃ target, disk.root.kindAt (place ++ [temporaryName]) = some (.link target)) ∨
        disk.root.Room place temporaryName) := by
  rw [join_fileName_tmp hne] at h
  have hname := legal_temporaryName.toIsName
  obtain ⟨parent, hsplit⟩ := Disk.splitLast_join root hname
  unfold Disk.write Disk.writeBytes at h
  rw [Disk.writeThrough_eq] at h
  obtain ⟨c, hwritten, -⟩ := map_eq_ok_iff.1 h
  obtain ⟨here, hp, hcases⟩ := Disk.written_eq_ok hwritten
  obtain ⟨-, above, -, rfl⟩ := (Disk.place_splitLast_eq_ok hsplit).1 hp
  rw [List.dropLast_concat] at hcases
  have hd : disk.root.kindAt above = some .dir := by
    rcases hcases with ⟨hk, -⟩ | ⟨-, hd, -, -⟩ | ⟨target, -, -, hk, -, -⟩
    · exact Node.kindAt_above (List.cons_ne_nil _ []) hk
    · exact hd
    · exact Node.kindAt_above (List.cons_ne_nil _ []) hk
  obtain ⟨place, he, hl⟩ := Disk.locate_of_place_join hne hname hp (by rwa [List.dropLast_concat])
  obtain ⟨rfl, -⟩ := List.append_inj' he rfl
  refine ⟨above, hl, hd, ?_⟩
  rcases hcases with ⟨hk, -⟩ | ⟨hk, -, -, -⟩ | ⟨target, -, -, hk, -, -⟩
  · exact .inr ⟨hd, .inr hk⟩
  · exact .inr ⟨hd, .inl hk⟩
  · exact .inl ⟨target, hk⟩

/-- There was `Room` for it, if no link stood there. -/
theorem exists_room_of_write {text : String} (hne : root ≠ "")
    (hlink : ∀ target, disk.entry (Path.join root fileName ++ ".tmp") ≠ .ok (.link target))
    (h : disk.write (Path.join root fileName ++ ".tmp") text = .ok disk') :
    ∃ place, disk.locate root = .ok place ∧ disk.root.Room place temporaryName := by
  obtain ⟨place, hl, hd, ⟨target, hk⟩ | hroom⟩ := exists_home_of_write hne h
  · rw [join_fileName_tmp hne] at hlink
    exact absurd (Disk.entry_eq_ok.2 ⟨_, Disk.place_join hl hd legal_temporaryName,
      Node.kindAt_eq_link.1 hk⟩) (hlink target)
  · exact ⟨place, hl, hroom⟩

/-- A configuration that `openAt` came to stands in a directory, or was written there. -/
theorem exists_home {p q : Progress} {defaults : MigrationConfig} {store : ConfigStore}
    (hne : root ≠ "") (hopen : openAt root defaults p = (.ok store, q)) :
    ∃ place, p.disk.locate root = .ok place ∧ p.disk.root.kindAt place = some .dir := by
  cases hl : p.disk.locate (Path.join root fileName) with
  | ok there =>
    obtain ⟨place, hl, hd, -⟩ := Disk.exists_entry_of_locate_join hne legal_fileName.toIsName hl
    exact ⟨place, hl, hd⟩
  | error e =>
    have hexists : p.disk.pathExists (Path.join root fileName) = false := by
      rw [Disk.pathExists, hl]
      rfl
    -- the defaults were written to the other file
    obtain ⟨_, _, hdisk, hopen⟩ := Session.bind_eq_ok hopen
    cases hdisk
    rw [if_neg (by simp [hexists])] at hopen
    obtain ⟨_, _, hinfo, hopen⟩ := Session.bind_eq_ok hopen
    cases hinfo
    obtain ⟨_, _, hsave, -⟩ := Session.bind_eq_ok hopen
    obtain ⟨mid, hwrite, -⟩ := save_eq_ok hsave
    obtain ⟨place, hl, hd, -⟩ := exists_home_of_write hne hwrite
    exact ⟨place, hl, hd⟩

/-- A file whose text holds no foreign doubles: it is a `ConfigStore.WholeText`. -/
def WholeFile : Node → Prop
  | .file content => ∀ text ∈ String.fromUTF8? content, WholeText text
  | _ => False

instance : DecidablePred WholeFile
  | .file content => inferInstanceAs (Decidable (∀ text ∈ String.fromUTF8? content, WholeText text))
  | .link _ => isFalse id
  | .dir _ => isFalse id

/-- At `path` there is nothing, or a file whose text holds no foreign doubles. -/
def WholeAt (disk : Disk) (path : String) : Prop :=
  ∀ node ∈ (disk.entry path).toOption, WholeFile node

instance (disk : Disk) (path : String) : Decidable (WholeAt disk path) :=
  inferInstanceAs (Decidable (∀ node ∈ (disk.entry path).toOption, WholeFile node))

theorem WholeAt.wholeFile {path : String} (h : WholeAt disk path) {node : Node}
    (he : disk.entry path = .ok node) : WholeFile node :=
  h node (by rw [he]; rfl)

/-- **A configuration that `openAt` came to** can be saved, if nothing stands where it is written
first. -/
theorem exists_savable {p q : Progress} {defaults : MigrationConfig} {store : ConfigStore}
    (hw : p.disk.root.WellFormed) (hne : root ≠ "")
    (hfree : ∀ node, p.disk.entry (Path.join root fileName ++ ".tmp") ≠ .ok node)
    (hopen : openAt root defaults p = (.ok store, q)) : ∃ place, Savable p.disk root place := by
  obtain ⟨place, hl, hd⟩ := exists_home hne hopen
  refine ⟨place, hw, hl, hd, fun hdir => ?_, ?_⟩
  · -- a directory would not have been read
    have hlocate : p.disk.locate (Path.join root fileName) = .ok (place ++ [fileName]) := by
      rw [← Path.joinAll_singleton]
      exact Disk.locate_joinAll hl (List.forall_mem_singleton.2 legal_fileName) (.inl hdir)
    have hload : load defaults (Path.join root fileName) p.disk =
        .error (.unreadable (Path.join root fileName) .isDirectory) := by
      simp only [load, Disk.read, Disk.readBytes_of_dir hlocate hdir]
    have hexists : p.disk.pathExists (Path.join root fileName) = true := by
      rw [Disk.pathExists, hlocate]
      rfl
    rw [openAt_eq_error hexists hload] at hopen
    cases hopen
  · cases hg : p.disk.root.get? (place ++ [temporaryName]) with
    | none => rfl
    | some node =>
      refine absurd (Disk.entry_eq_ok.2 ⟨_, Disk.place_join hl hd legal_temporaryName, hg⟩) ?_
      rw [← join_fileName_tmp hne]
      exact hfree node

/-- The disk is `Ready` if, besides, nothing but a file stands at its path. -/
theorem exists_ready {p q : Progress} {defaults : MigrationConfig} {store : ConfigStore}
    (hw : p.disk.root.WellFormed) (hne : root ≠ "")
    (hfree : ∀ node, p.disk.entry (Path.join root fileName ++ ".tmp") ≠ .ok node)
    (hwhole : WholeAt p.disk (Path.join root fileName))
    (hopen : openAt root defaults p = (.ok store, q)) : ∃ place, Ready p.disk root place := by
  obtain ⟨place, h⟩ := exists_savable hw hne hfree hopen
  refine ⟨place, hw, h.located, ⟨h.home, ?_⟩, h.free⟩
  cases hg : p.disk.root.get? (place ++ [fileName]) with
  | none => exact .inl (by rw [Node.kindAt, hg, Option.map_none])
  | some node =>
    have hentry : p.disk.entry (Path.join root fileName) = .ok node :=
      Disk.entry_eq_ok.2 ⟨_, Disk.place_join h.located h.home legal_fileName, hg⟩
    have hfile := hwhole.wholeFile hentry
    cases node with
    | file content => exact .inr (Node.kindAt_eq_file.2 ⟨content, hg⟩)
    | link target => exact hfile.elim
    | dir entries => exact hfile.elim

end ConfigStore

/-! ## Finding the root -/

namespace Settings

open ConfigStore (Ready Settled Since fileName)

variable {disk disk' : Disk} {root : String} {place : List String} {settings settings' : Settings}

/-- **A root that `findRoot` comes to** is the absolute path of its place. -/
theorem eq_pathOf_of_findRoot (hlegal : disk.Legal) (h : settings.findRoot disk = .ok root)
    (hl : disk.locate root = .ok place) : root = Disk.pathOf place := by
  have hback : ∀ {there}, Disk.Stands disk.root there → root = Disk.pathOf there →
      root = Disk.pathOf place := by
    intro there hstands he
    have hthere := Disk.locate_pathOf hlegal.wellFormed hlegal.top hstands
    rw [← he, hl] at hthere
    rw [Except.ok.inj hthere]
    exact he
  unfold findRoot at h
  split at h
  · next given _ =>
    cases hg : disk.locate given with
    | ok there =>
      simp only [Disk.canonical?, hg, Except.toOption, Option.map_some, Option.getD_some] at h
      exact hback (Disk.stands_of_locate hg) (Except.ok.inj h).symm
    | error e =>
      simp only [Disk.canonical?, hg, Except.toOption, Option.map_none, Option.getD_none] at h
      rw [Except.ok.inj h, hl] at hg
      cases hg
  · cases hc : checkoutAbove disk disk.workingDir with
    | none => simp [hc] at h
    | some dir =>
      simp only [hc, Option.elim_some] at h
      obtain ⟨depth, -, rfl⟩ := List.mem_map.1 (List.mem_of_find?_eq_some hc)
      exact hback (.inl (Node.kindAt_take hlegal.workingDir)) (Except.ok.inj h).symm

/-- A `path` that ends in another name exists as before. -/
theorem pathExists_since (h : Ready disk root place) (hs : Since place disk disk')
    (h' : Settled disk' root place) (hlinks : NoLinkTo disk'.root (place ++ [fileName]))
    {path : String} (hlast : (Path.pieces path.toList).getLast? ≠ some fileName.toList) :
    disk'.pathExists path = disk.pathExists path := by
  rcases hs with rfl | ⟨content, rfl⟩
  · rfl
  have hgrown := h.grown content
  unfold Disk.pathExists
  cases hl : disk.locate path with
  | ok here => rw [Disk.locate_withFile hgrown hl]
  | error e =>
    cases hl' : (disk.withFile (place ++ [fileName]) content).locate path with
    | error e' => rfl
    | ok here =>
      exfalso
      by_cases hc : here = place ++ [fileName]
      · exact hlast (Disk.getLast?_pieces_of_locate hlinks h'.file (hc ▸ hl'))
      · obtain ⟨hnul, hne, hf⟩ := Disk.locate_eq_ok.1 hl'
        rw [Disk.locate_eq_ok.2 ⟨hnul, hne, Disk.follow_of_grown hgrown hc hf⟩] at hl
        cases hl

/-- **The root is found again** by `settings'` for the same directory. -/
theorem findRoot_since (h : Ready disk root place) (hs : Since place disk disk')
    (h' : Settled disk' root place) (hlinks : NoLinkTo disk'.root (place ++ [fileName]))
    (hsame : settings'.root = settings.root) (hroot : settings.findRoot disk = .ok root) :
    settings'.findRoot disk' = .ok root := by
  unfold findRoot at hroot ⊢
  rw [hsame]
  split at hroot
  · next given _ =>
    cases hg : disk.locate given with
    | ok there =>
      have hg' : disk'.locate given = .ok there := by
        rcases hs with rfl | ⟨content, rfl⟩
        · exact hg
        · exact Disk.locate_withFile (h.grown content) hg
      simpa only [Disk.canonical?, hg, hg'] using hroot
    | error e =>
      simp only [Disk.canonical?, hg, Except.toOption, Option.map_none, Option.getD_none] at hroot
      rw [Except.ok.inj hroot, h.located] at hg
      cases hg
  · have hwd : disk'.workingDir = disk.workingDir := by
      rcases hs with rfl | ⟨content, rfl⟩ <;> rfl
    have hmark : (fun dir => disk'.pathExists (Path.join dir checkoutMark)) =
        fun dir => disk.pathExists (Path.join dir checkoutMark) := by
      funext dir
      refine pathExists_since h hs h' hlinks ?_
      rw [Path.getLast?_pieces_join]
      decide
    rw [hwd, checkoutAbove, hmark]
    exact hroot

end Settings

/-! ## Migrations that came to a report -/

namespace Migration

open ConfigStore (fileName)

variable {p q : Progress} {root : String} {report : Report}

theorem path_of_openAt {defaults : MigrationConfig} {store : ConfigStore}
    (h : ConfigStore.openAt root defaults p = (.ok store, q)) :
    store.path = Path.join root fileName := by
  obtain ⟨_, _, hdisk, h⟩ := Session.bind_eq_ok h
  cases hdisk
  split at h
  · obtain ⟨found, _, hlook, h⟩ := Session.bind_eq_ok h
    obtain ⟨_, _, -, h⟩ := Session.bind_eq_ok h
    cases h
    obtain ⟨-, -, hpath, -⟩ := ConfigStore.load_eq_ok.1 (Prod.mk.inj hlook).1
    exact hpath
  · obtain ⟨_, _, -, h⟩ := Session.bind_eq_ok h
    obtain ⟨_, _, -, h⟩ := Session.bind_eq_ok h
    cases h
    rfl

theorem path_of_dropStale {store store' : ConfigStore} {live : List String}
    (h : dropStale store live p = (.ok store', q)) : store'.path = store.path := by
  obtain ⟨_, _, -, h⟩ := Session.bind_eq_ok h
  dsimp only at h
  split at h
  · cases h
    rfl
  · obtain ⟨_, _, -, h⟩ := Session.bind_eq_ok h
    cases h
    rfl

/-- A migration that came to a `report` has opened the configuration and found manifests. -/
theorem exists_opened_of_planAt {settings : Settings} {collaborators : Option Collaborators}
    (h : planAt root settings collaborators p = (.ok report, q)) :
    report.configPath = Path.join root fileName ∧ ∃ store mid records,
      ConfigStore.openAt root (.fresh settings.prettier settings.recast) p = (.ok store, mid) ∧
      ManifestRecord.load mid.disk root = .ok records := by
  obtain ⟨store, mid, hopen, h⟩ := Session.bind_eq_ok h
  obtain ⟨_, _, hinfo, h⟩ := Session.bind_eq_ok h
  cases hinfo
  obtain ⟨records, _, hlook, h⟩ := Session.bind_eq_ok h
  have hload : ManifestRecord.load mid.disk root = .ok records := (Prod.mk.inj hlook).1
  refine ⟨?_, store, mid, records, hopen, hload⟩
  obtain ⟨_, _, -, h⟩ := Session.bind_eq_ok h
  obtain ⟨_, _, -, h⟩ := Session.bind_eq_ok h
  obtain ⟨_, _, -, h⟩ := Session.bind_eq_ok h
  obtain ⟨_, _, -, h⟩ := Session.bind_eq_ok h
  obtain ⟨store', _, hdrop, h⟩ := Session.bind_eq_ok h
  obtain ⟨_, _, -, h⟩ := Session.bind_eq_ok h
  obtain ⟨_, _, -, h⟩ := Session.bind_eq_ok h
  obtain ⟨_, _, -, h⟩ := Session.bind_eq_ok h
  cases h
  rw [← path_of_openAt hopen, ← path_of_dropStale hdrop]

/-- A migration that came to a `report` has found its root, and has told about nothing else. -/
theorem plan_eq_ok {settings : Settings} {collaborators : Option Collaborators}
    (h : plan settings collaborators p = (.ok report, q)) :
    ∃ root mid, settings.findRoot p.disk = .ok root ∧ mid.disk = p.disk ∧
      mid.deliveries = p.deliveries ∧
      (∃ texts : List String, mid.log = p.log ++ texts.map .info) ∧
      planAt root { settings with root := some root } collaborators mid = (.ok report, q) := by
  rw [plan, Session.info_bind] at h
  obtain ⟨settings', _, hwith, h⟩ := Session.bind_eq_ok h
  obtain ⟨root, _, hlook, hwith⟩ := Session.bind_eq_ok hwith
  obtain ⟨hroot, rfl⟩ := Prod.mk.inj hlook
  rw [Session.info_bind] at hwith
  cases hwith
  obtain ⟨_, _, hget, h⟩ := Session.bind_eq_ok h
  cases hget
  refine ⟨root, _, hroot, ?_, ?_,
    ⟨["Starting repository migration", "Using root directory: " ++ root], ?_⟩, h⟩
  · rfl
  · rfl
  · exact List.append_assoc _ _ _

theorem exists_root_of_plan {settings : Settings} {collaborators : Option Collaborators}
    (h : plan settings collaborators p = (.ok report, q)) :
    ∃ root mid, settings.findRoot p.disk = .ok root ∧ mid.disk = p.disk ∧
      planAt root { settings with root := some root } collaborators mid = (.ok report, q) := by
  obtain ⟨root, mid, hroot, hdisk, -, -, hplan⟩ := plan_eq_ok h
  exact ⟨root, mid, hroot, hdisk, hplan⟩

theorem configPath_of_plan {settings : Settings} {collaborators : Option Collaborators}
    (hroot : settings.findRoot p.disk = .ok root)
    (h : plan settings collaborators p = (.ok report, q)) :
    report.configPath = Path.join root fileName := by
  obtain ⟨root', _, hroot', -, hplan⟩ := exists_root_of_plan h
  rw [hroot] at hroot'
  rw [Except.ok.inj hroot']
  exact (exists_opened_of_planAt hplan).1

/-- The steps of a migration whose `root` is found are those of `planAt`. -/
theorem runs_plan {settings : Settings} {collaborators : Option Collaborators} {disk disk' : Disk}
    {r : Except Failure Report} (hroot : settings.findRoot disk = .ok root)
    (h : (planAt root { settings with root := some root } collaborators).Runs disk r disk') :
    (plan settings collaborators).Runs disk r disk' := by
  have hwith : settings.withRoot.Runs disk (.ok { settings with root := some root }) disk := by
    have hlook : (Session.look settings.findRoot).Runs disk (.ok root) disk := hroot ▸ .look _
    exact .bind hlook (.bind (.info _) (.pure _))
  exact .bind (.info _) (.bind hwith (.bind (.get _) h))

theorem locate_of_load {disk : Disk} {records : List ManifestRecord}
    (h : ManifestRecord.load disk root = .ok records) : ∃ place, disk.locate root = .ok place := by
  obtain ⟨found, hfound, -⟩ := ManifestRecord.load_eq_ok.1 h
  obtain ⟨walked, hwalk, -⟩ := ManifestRecord.discover_eq_ok.1 hfound
  exact Walk.located_of_entries hwalk

end Migration

end FlowMigration
