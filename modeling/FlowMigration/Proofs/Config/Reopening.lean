import FlowMigration.Proofs.Migration.Opening

/-!
# A configuration is opened again

What `ConfigStore.save` leaves is what `ConfigStore.openAt` finds.

* `disk_of_save`: the disk once a configuration was saved, with the new file and without the other
  one.
* `settled_of_save`: on it the configuration can be read and saved again.
* `openAt_after_save`: it is opened as it was saved, over any defaults. What is opened has no known
  key among its foreign members, and stays so.
-/

namespace FlowMigration

namespace ConfigStore

open MigrationConfig (knownKeys OnlyForeign)

variable {p q : Progress} {root : String} {place : List String} {store : ConfigStore}

/-! ## What saving leaves -/

/-- **A configuration that `store` saved** has taken the place of the one before, if no link stood
where it was written first. -/
theorem disk_of_save (hne : root ≠ "") (hpath : store.path = Path.join root fileName)
    (hlink : ∀ target, p.disk.entry store.temporaryPath ≠ .ok (.link target))
    (hsave : store.save p = (.ok (), q)) :
    ∃ place, p.disk.locate root = .ok place ∧ p.disk.root.Room place temporaryName ∧
      p.disk.root.kindAt (place ++ [fileName]) ≠ some .dir ∧
      q.disk = (cleared p.disk place).withFile (place ++ [fileName]) store.text.toUTF8 := by
  obtain ⟨mid, hwrite, -⟩ := save_eq_ok hsave
  rw [temporaryPath, hpath] at hwrite hlink
  obtain ⟨place, hl, hroom⟩ := exists_room_of_write hne hlink hwrite
  have hno := no_dir_of_save hl hroom rfl hpath hsave
  have hsaved := save_eq_cleared hl hroom rfl hno hpath
  rw [hsave] at hsaved
  exact ⟨place, hl, hroom, hno, congrArg Progress.disk (Prod.mk.inj hsaved).2⟩

/-- On a disk that is `cleared` of the other file a configuration can be saved. -/
theorem savable_cleared {disk : Disk} (hw : disk.root.WellFormed)
    (hhome : disk.root.kindAt place = some .dir)
    (hno : disk.root.kindAt (place ++ [fileName]) ≠ some .dir) :
    Savable (cleared disk place) (Disk.pathOf place) place := by
  have hkind : ∀ other, ¬place ++ [temporaryName] <+: other →
      (cleared disk place).root.kindAt other = disk.root.kindAt other := by
    intro other hother
    rw [cleared, Node.kindAt_eq_bareAt, Node.bareAt_erase hother, ← Node.kindAt_eq_bareAt]
  have hhome' : (cleared disk place).root.kindAt place = some .dir := by
    rw [hkind place fun hp => ?_, hhome]
    have hlen := hp.length_le
    rw [List.length_append, List.length_singleton] at hlen
    omega
  have hw' : (cleared disk place).root.WellFormed := hw.erase _
  have hgone : (cleared disk place).root.get? (place ++ [temporaryName] ++ []) = none :=
    Node.get?_erase_self (by simp) []
  refine ⟨hw', Disk.locate_pathOf hw' (Node.kindAt_take (n := 0) hhome') (.inl hhome'), hhome', ?_,
    by rwa [List.append_nil] at hgone⟩
  rw [hkind _ not_prefix_names.1]
  exact hno

/-- **Where `store` was saved** it can be read and saved again. -/
theorem settled_of_save (hlegal : p.disk.Legal) (hroot : p.disk.canonical? root = some root)
    (hpath : store.path = Path.join root fileName)
    (hlink : ∀ target, p.disk.entry store.temporaryPath ≠ .ok (.link target))
    (hsave : store.save p = (.ok (), q)) :
    ∃ place, Settled q.disk root place ∧
      q.disk.root.get? (place ++ [fileName]) = some (.file store.text.toUTF8) ∧
      q.disk.withFile (place ++ [fileName]) store.text.toUTF8 = q.disk := by
  obtain ⟨there, hthere, hcanonical⟩ : ∃ there, p.disk.locate root = .ok there ∧
      Disk.pathOf there = root := by
    unfold Disk.canonical? at hroot
    exact map_toOption_eq_some_iff.1 hroot
  obtain ⟨place, hl, hroom, hno, hq⟩ :=
    disk_of_save (Disk.locate_eq_ok.1 hthere).2.1 hpath hlink hsave
  obtain rfl : there = place := Except.ok.inj (hthere.symm.trans hl)
  have hsavable := savable_cleared hlegal.wellFormed hroom.home hno
  rw [hcanonical] at hsavable
  have hfile := hsavable.get?_withFile store.text.toUTF8
  rw [hq]
  exact ⟨there, ⟨hsavable.withFile _ hcanonical.symm, Node.kindAt_eq_file.2 ⟨_, hfile⟩⟩, hfile,
    withFile_withFile _ _ _ _⟩

/-! ## What is opened -/

/-- **What `parse` reads** has no known key among its foreign members. -/
theorem onlyForeign_of_parse {defaults : MigrationConfig} {text : String} {config : MigrationConfig}
    (h : parse defaults text = .ok config) : config.OnlyForeign := by
  unfold parse at h
  split at h
  · cases h
  · next value hvalue =>
    cases value with
    | object existing =>
      have hread := MigrationConfig.mergedOver_eq_ok_iff.1 h
      intro key hkey hknown
      rw [Dict.mem_keys, ← hread.other, Dict.get?_filter, if_neg (by simpa using hknown)] at hkey
      cases hkey
    | _ => cases h

/-- So has what `openAt` comes to where there is a file. -/
theorem onlyForeign_of_openAt {defaults : MigrationConfig}
    (hexists : p.disk.pathExists (Path.join root fileName) = true)
    (hopen : openAt root defaults p = (.ok store, q)) : store.config.OnlyForeign := by
  obtain ⟨hload, -⟩ := (runs_openAt_found hexists defaults).of_eq hopen
  obtain ⟨text, -, -, hparse⟩ := load_eq_ok.1 hload
  exact onlyForeign_of_parse hparse

/-- **A configuration is opened as it was saved**: `openAt` comes to the one that `store` has, with
the foreign members of the defaults that it lacks (`completedBy`), and saving it again changes
nothing. What is opened where there is a file is `OnlyForeign`, whichever packages are retained or
recorded. -/
theorem openAt_after_save (hlegal : p.disk.Legal) (hroot : p.disk.canonical? root = some root)
    (hpath : store.path = Path.join root fileName)
    (hlink : ∀ target, p.disk.entry store.temporaryPath ≠ .ok (.link target))
    (hkeep : store.config.Keepable) (hsave : store.save p = (.ok (), q)) :
    (∀ defaults : MigrationConfig, (openAt root defaults).Runs q.disk
      (.ok { store with config := store.config.completedBy defaults }) q.disk) ∧
    (∀ defaults : MigrationConfig,
      (∀ key ∈ defaults.other.keys, key ∈ knownKeys ∨ key ∈ store.config.other.keys) →
      (openAt root defaults).Runs q.disk (.ok store) q.disk) ∧
    store.save.Runs q.disk (.ok ()) q.disk ∧
    (∀ (root' : String) (defaults : MigrationConfig) (first last : Progress) (opened : ConfigStore),
      first.disk.pathExists (Path.join root' fileName) = true →
      openAt root' defaults first = (.ok opened, last) → opened.config.OnlyForeign) ∧
    ∀ any : ConfigStore, any.config.OnlyForeign →
      (∀ live, (any.retain live).config.OnlyForeign) ∧
      ∀ key package, (any.record key package).config.OnlyForeign := by
  obtain ⟨place, hsettled, hfile, hagain⟩ := settled_of_save hlegal hroot hpath hlink hsave
  have hopens : ∀ defaults : MigrationConfig, (openAt root defaults).Runs q.disk
      (.ok { store with config := store.config.completedBy defaults }) q.disk := by
    intro defaults
    rw [hpath]
    exact runs_openAt_text hsettled hfile (parse_text_completedBy hkeep defaults)
  refine ⟨hopens, fun defaults hkeys => ?_, ?_, ?_, ?_⟩
  · have hopen := hopens defaults
    rwa [MigrationConfig.completedBy_eq hkeys] at hopen
  · have hruns := runs_save hsettled.savable hpath
    rwa [hagain] at hruns
  · exact fun _ _ _ _ _ => onlyForeign_of_openAt
  · exact fun any hany => ⟨fun _ => hany, fun _ _ => hany⟩

/-- A configuration with a foreign member, at the root of a disk. -/
def keptStore : ConfigStore :=
  ⟨"/flow-ts-config.json",
    { MigrationConfig.fresh true false with other := .ofList [("x", .null)] }⟩

theorem keepable_keptStore : keptStore.config.Keepable := by
  have hone : ∀ e ∈ keptStore.config.other.entries, e = ("x", .null) := fun _ => List.mem_singleton.1
  refine ⟨fun e he => ?_, fun e he => ?_, fun e he => ?_, fun e he => ?_⟩ <;> rw [hone e he]
  · decide
  · trivial
  · trivial
  · trivial

/-- It is opened as it was saved where a file was left beside it, and defaults without further
members make no difference. -/
theorem openAt_after_save_beside_file : ∃ q,
    keptStore.save { disk := ⟨.dir [("flow-ts-config.json.tmp", .file "left".toUTF8)], []⟩ } =
      (.ok (), q) ∧
    (openAt "/" { MigrationConfig.fresh false true with other := .ofList [("x", .null)] }).Runs
      q.disk (.ok keptStore) q.disk ∧
    keptStore.save.Runs q.disk (.ok ()) q.disk := by
  let disk : Disk := ⟨.dir [("flow-ts-config.json.tmp", .file "left".toUTF8)], []⟩
  have hlegal : disk.Legal := by decide +kernel
  have hroot : disk.canonical? "/" = some "/" := by decide +kernel
  have hpath : keptStore.path = Path.join "/" fileName := by decide
  have hlink : ∀ target, disk.entry keptStore.temporaryPath ≠ .ok (.link target) := by
    intro target he
    have hkind : (disk.entry keptStore.temporaryPath).toOption.map Node.kind = some .file := by
      decide +kernel
    rw [he] at hkind
    cases hkind
  have hok : (keptStore.save { disk }).1.isOk = true := by decide +kernel
  obtain ⟨⟨⟩, q, hsave⟩ := exists_of_isOk hok
  obtain ⟨-, hopen, hagain, -⟩ :=
    openAt_after_save (p := { disk }) hlegal hroot hpath hlink keepable_keptStore hsave
  exact ⟨q, hsave, hopen _ (by decide), hagain⟩

/-- Whatever a store leaves when it is saved on a disk, it is opened again from it. -/
def Reopens (disk : Disk) (root : String) (defaults : MigrationConfig) (store : ConfigStore) : Prop :=
  ∀ q, store.save { disk } = (.ok (), q) → ∃ last, openAt root defaults q = (.ok store, last)

/-- A saved configuration that is not opened: the file has other foreign keys, or there is a
failure. -/
theorem not_reopens_of_keys {disk : Disk} {defaults : MigrationConfig}
    (hsave : (store.save { disk }).1.isOk = true)
    (hkeys : (openAt root defaults (store.save { disk }).2).1.toOption.map
      (fun opened => opened.config.other.keys) ≠ some store.config.other.keys) :
    ¬Reopens disk root defaults store := by
  intro h
  obtain ⟨⟨⟩, q, hrun⟩ := exists_of_isOk hsave
  obtain ⟨last, hopen⟩ := h q hrun
  rw [hrun, hopen] at hkeys
  exact hkeys rfl

/-- **A saved configuration is lost** when a link stands where it is written first and leads to it,
or when a link to a directory stood at its place and the path of the root leads through that.
Defaults with further members are kept beside it. -/
theorem not_reopens : keptStore.config.Keepable ∧
    ¬Reopens ⟨.dir [("flow-ts-config.json", .file "\x7b\x7d".toUTF8),
      ("flow-ts-config.json.tmp", .link "flow-ts-config.json")], []⟩ "/" (.fresh true false)
      keptStore ∧
    ¬Reopens ⟨.dir [("d", .dir []), ("flow-ts-config.json", .link "d")], []⟩
      "/flow-ts-config.json/.." (.fresh true false)
      { keptStore with path := "/flow-ts-config.json/../flow-ts-config.json" } ∧
    ¬Reopens ⟨.dir [], []⟩ "/"
      { MigrationConfig.fresh true false with other := .ofList [("y", .null)] } keptStore := by
  refine ⟨keepable_keptStore, ?_, ?_, ?_⟩ <;>
    exact not_reopens_of_keys (by decide +kernel) (by decide +kernel)

end ConfigStore

end FlowMigration
