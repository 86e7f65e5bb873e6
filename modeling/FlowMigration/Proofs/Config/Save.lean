import FlowMigration.Config.Store
import FlowMigration.Proofs.Disk.Change
import FlowMigration.Proofs.Disk.Names

/-!
# Saving the configuration

The configuration goes to another file first, which then takes the place of the old one.

* `ConfigStore.Savable`: a disk on which that works, with a repository at some place.
* `save_eq`: then saving changes the configuration file and nothing else. `save_eq_cleared` says
  what it does where a file is left from before.
* `ConfigStore.Ready`: where no link stands at the path of the configuration. A disk is ready once
  the configuration was saved (`Savable.withFile`, `Ready.withFile`).
-/

namespace FlowMigration

namespace Disk

variable {disk : Disk} {root : String} {place : List String} {name : String}

/-- Paths lead on as before when a file is written to the place `c`. -/
theorem locate_withFile {path : String} {here : List String} {c : List String} {content : ByteArray}
    (h : Node.Grown c disk.root (disk.withFile c content).root)
    (hl : disk.locate path = .ok here) : (disk.withFile c content).locate path = .ok here := by
  obtain ⟨hnul, hne, hf⟩ := locate_eq_ok.1 hl
  exact locate_eq_ok.2 ⟨hnul, hne, follow_grown h hf⟩

/-! ## Operations on files -/

/-- Writing to a path where there is `Room` puts a file there. -/
theorem write_room {path : String} (hp : disk.place path = .ok (place ++ [name]))
    (hroom : disk.root.Room place name) (hn : LegalName name) (text : String) :
    disk.write path text = .ok (disk.withFile (place ++ [name]) text.toUTF8) := by
  obtain ⟨es, hes⟩ := Node.kindAt_eq_dir.1 hroom.home
  have hshort : ¬name.utf8ByteSize > maxNameBytes := Nat.not_lt.2 hn.short
  unfold write writeBytes writeThrough
  simp only [hp]
  rcases hroom.free with hnone | hfile
  · have hget : disk.root.get? (place ++ [name]) = none := by
      simpa [Node.kindAt] using hnone
    simp only [hget, List.dropLast_concat, hes, List.getLast?_concat, Option.getD_some, hshort,
      if_false]
    rfl
  · obtain ⟨content, hget⟩ := Node.kindAt_eq_file.1 hfile
    simp only [hget]
    rfl

section
variable {source target : String} {old : List String} {node : Node}
  (hs : disk.place source = .ok old) (hold : disk.root.get? old = some node)
  (hleaf : node.isDir = false) (ht : disk.place target = .ok (place ++ [name]))
include hs hold hleaf ht

/-- Moving `old`, a file or a link, to where no directory stands. -/
theorem rename_leaf (hd : disk.root.kindAt place = some .dir)
    (hfree : disk.root.kindAt (place ++ [name]) ≠ some .dir) (hne : old ≠ place ++ [name]) :
    disk.rename source target =
      .ok { disk with root := node.put (disk.root.erase old) (place ++ [name]) } := by
  obtain ⟨es, hes⟩ := Node.kindAt_eq_dir.1 hd
  unfold rename
  cases hg : disk.root.get? (place ++ [name]) with
  | none => simp [hs, ht, hold, hes, hg]
  | some former =>
    cases former with
    | dir entries => exact absurd (Node.kindAt_eq_dir.2 ⟨entries, hg⟩) hfree
    | file former => simp [hs, ht, hold, hes, hg, hleaf, hne]
    | link former => simp [hs, ht, hold, hes, hg, hleaf, hne]

theorem rename_leaf_to_dir (hd : disk.root.kindAt (place ++ [name]) = some .dir) :
    disk.rename source target = .error .isDirectory := by
  obtain ⟨es, hes⟩ := Node.kindAt_eq_dir.1 (Node.kindAt_above (List.cons_ne_nil name []) hd)
  obtain ⟨es', hes'⟩ := Node.kindAt_eq_dir.1 hd
  unfold rename
  simp [hs, ht, hold, hes, hes', hleaf]

end

end Disk

namespace ConfigStore

/-! ## Ready disks -/

/-- The name of the file that a configuration is written to first. -/
def temporaryName : String := fileName ++ ".tmp"

/-- A disk with a repository at `place`, where a configuration can be saved: no directory stands at
its path, and nothing at that of the other file. -/
structure Savable (disk : Disk) (root : String) (place : List String) : Prop where
  wellFormed : disk.root.WellFormed
  located : disk.locate root = .ok place
  home : disk.root.kindAt place = some .dir
  no_dir : disk.root.kindAt (place ++ [fileName]) ≠ some .dir
  free : disk.root.get? (place ++ [temporaryName]) = none

/-- A disk where a configuration can be saved and no symbolic link stands at its path. -/
structure Ready (disk : Disk) (root : String) (place : List String) : Prop where
  wellFormed : disk.root.WellFormed
  located : disk.locate root = .ok place
  room : disk.root.Room place fileName
  free : disk.root.get? (place ++ [temporaryName]) = none

variable {disk : Disk} {root : String} {place : List String}

theorem Ready.savable (h : Ready disk root place) : Savable disk root place := by
  refine ⟨h.wellFormed, h.located, h.room.home, fun hd => ?_, h.free⟩
  rcases h.room.free with hf | hf <;> rw [hf] at hd <;> cases hd

theorem legal_fileName : LegalName fileName := by decide

theorem legal_temporaryName : LegalName temporaryName := by decide

theorem join_fileName_tmp (hroot : root ≠ "") :
    Path.join root fileName ++ ".tmp" = Path.join root temporaryName := by
  have habs : Path.isAbsolute fileName = false := by decide
  have habs' : Path.isAbsolute temporaryName = false := by decide
  rw [Path.join, Path.join, habs, habs', temporaryName]
  simp only [Bool.false_or, String.isEmpty_iff, hroot, if_false]
  split <;> simp only [String.append_assoc]

/-- The place of the configuration is not that of `temporaryName`, nor below or above it. -/
theorem not_prefix_names : ¬place ++ [temporaryName] <+: place ++ [fileName] ∧
    ¬place ++ [fileName] <+: place ++ [temporaryName] := by
  have hne : temporaryName ≠ fileName := by decide
  constructor
  · intro h
    have he := h.eq_of_length (by simp)
    exact hne (List.singleton_inj.1 (List.append_inj' he rfl).2)
  · intro h
    have he := h.eq_of_length (by simp)
    exact hne (List.singleton_inj.1 (List.append_inj' he rfl).2).symm

theorem Ready.grown (h : Ready disk root place) (content : ByteArray) :
    Node.Grown (place ++ [fileName]) disk.root (disk.withFile (place ++ [fileName]) content).root :=
  Node.grown_put h.room content

section
variable (h : Savable disk root place) (content : ByteArray)
include h

theorem Savable.wellFormed_withFile :
    (disk.withFile (place ++ [fileName]) content).root.WellFormed := by
  obtain ⟨es, hes⟩ := Node.kindAt_eq_dir.1 h.home
  refine h.wellFormed.put (.file content) fun name hmem => ?_
  rcases List.mem_append.1 hmem with hmem | hmem
  · exact h.wellFormed.legal hes name hmem
  · rw [List.mem_singleton.1 hmem]
    exact legal_fileName

theorem Savable.get?_withFile :
    (disk.withFile (place ++ [fileName]) content).root.get? (place ++ [fileName]) =
      some (.file content) := by
  obtain ⟨es, hes⟩ := Node.kindAt_eq_dir.1 h.home
  exact Node.get?_put_self hes _ _

theorem Savable.room_withFile :
    (disk.withFile (place ++ [fileName]) content).root.Room place fileName := by
  obtain ⟨es, hes⟩ := Node.kindAt_eq_dir.1 h.home
  exact ⟨Node.kindAt_eq_dir.2 (Node.exists_dir_put (List.cons_ne_nil _ _) hes _),
    .inr (Node.kindAt_eq_file.2 ⟨content, h.get?_withFile content⟩)⟩

theorem Savable.free_withFile :
    (disk.withFile (place ++ [fileName]) content).root.get? (place ++ [temporaryName]) = none := by
  rw [Disk.withFile, Node.get?_put_of_ne not_prefix_names.2 not_prefix_names.1]
  exact h.free

/-- **A disk gets `Ready`** when the configuration file is written, if the path of the repository
leads through no link. -/
theorem Savable.withFile (hroot : root = Disk.pathOf place) :
    Ready (disk.withFile (place ++ [fileName]) content) root place :=
  have hhome := (h.room_withFile content).home
  ⟨h.wellFormed_withFile content, hroot ▸ Disk.locate_pathOf (h.wellFormed_withFile content)
    (Node.kindAt_take (n := 0) hhome) (.inl hhome), h.room_withFile content,
    h.free_withFile content⟩

end

/-- **A disk stays `Ready`** when the configuration file is written. -/
theorem Ready.withFile (h : Ready disk root place) (content : ByteArray) :
    Ready (disk.withFile (place ++ [fileName]) content) root place :=
  ⟨h.savable.wellFormed_withFile content, Disk.locate_withFile (h.grown content) h.located,
    h.savable.room_withFile content, h.savable.free_withFile content⟩

/-- Nothing stands where a configuration is written first, on a disk that is `Savable`. -/
theorem Savable.entry_free (h : Savable disk root place) :
    (disk.entry (Path.join root fileName ++ ".tmp")).isOk = false := by
  have hne : root ≠ "" := (Disk.locate_eq_ok.1 h.located).2.1
  rw [join_fileName_tmp hne]
  cases he : disk.entry (Path.join root temporaryName) with
  | error e => rfl
  | ok node =>
    obtain ⟨here, hp, hg⟩ := Disk.entry_eq_ok.1 he
    rw [Disk.place_join h.located h.home legal_temporaryName] at hp
    rw [← Except.ok.inj hp, h.free] at hg
    cases hg

/-! ## Saving -/

/-- The disk without the file `temporaryName`, to which a configuration is written first. -/
def cleared (disk : Disk) (place : List String) : Disk :=
  { disk with root := disk.root.erase (place ++ [temporaryName]) }

theorem Savable.cleared_eq (h : Savable disk root place) : cleared disk place = disk := by
  rw [cleared, Node.erase_of_none h.wellFormed h.free]

/-- The `text` has been written to the other file, and on `mid` nothing else has happened. -/
structure Staged (disk : Disk) (root : String) (place : List String) (text : String) (mid : Disk) :
    Prop where
  write : disk.write (Path.join root fileName ++ ".tmp") text = .ok mid
  source : mid.place (Path.join root fileName ++ ".tmp") = .ok (place ++ [temporaryName])
  target : mid.place (Path.join root fileName) = .ok (place ++ [fileName])
  file : mid.root.get? (place ++ [temporaryName]) = some (.file text.toUTF8)
  home : mid.root.kindAt place = some .dir
  same : mid.root.kindAt (place ++ [fileName]) = disk.root.kindAt (place ++ [fileName])

section
variable (hl : disk.locate root = .ok place) (hroom : disk.root.Room place temporaryName)
include hl hroom

/-- **The other file is written** where there is room, and the disk is `Staged`. -/
theorem staged (text : String) :
    Staged disk root place text (disk.withFile (place ++ [temporaryName]) text.toUTF8) := by
  have hgrown : Node.Grown (place ++ [temporaryName]) disk.root
      (disk.withFile (place ++ [temporaryName]) text.toUTF8).root := Node.grown_put hroom _
  have hlocated := Disk.locate_withFile hgrown hl
  have hhome := hgrown.kindAt hroom.home
  obtain ⟨es, hes⟩ := Node.kindAt_eq_dir.1 hroom.home
  have htmp := join_fileName_tmp (Disk.locate_eq_ok.1 hl).2.1
  refine ⟨?_, ?_, Disk.place_join hlocated hhome legal_fileName, Node.get?_put_self hes _ _, hhome,
    hgrown.same _ fun he => ?_⟩
  · exact htmp ▸ Disk.write_room (Disk.place_join hl hroom.home legal_temporaryName) hroom
      legal_temporaryName text
  · exact htmp ▸ Disk.place_join hlocated hhome legal_temporaryName
  · exact absurd (List.singleton_inj.1 (List.append_inj' he rfl).2) (by decide)

/-- **Saving changes the configuration file** and leaves a disk `cleared` of the other file. -/
theorem save_eq_cleared {p : Progress} (hp : p.disk = disk)
    (hno : disk.root.kindAt (place ++ [fileName]) ≠ some .dir) {store : ConfigStore}
    (hpath : store.path = Path.join root fileName) :
    store.save p = (.ok (), { p with
      disk := (cleared disk place).withFile (place ++ [fileName]) store.text.toUTF8 }) := by
  have hstaged := staged hl hroom store.text
  have hother : place ++ [temporaryName] ≠ place ++ [fileName] := by
    intro he
    exact absurd (List.singleton_inj.1 (List.append_inj' he rfl).2) (by decide)
  obtain ⟨es, hes⟩ := Node.kindAt_eq_dir.1 hroom.home
  have herase : Node.erase (disk.withFile (place ++ [temporaryName]) store.text.toUTF8).root
      (place ++ [temporaryName]) = (cleared disk place).root := Node.erase_put hes _
  have hrename := Disk.rename_leaf hstaged.source hstaged.file rfl hstaged.target hstaged.home
    (hstaged.same ▸ hno) hother
  rw [herase] at hrename
  unfold save temporaryPath
  rw [hpath]
  simp only [bind, Session.change, hp, hstaged.write, hrename]
  rfl

/-- No directory stood at `fileName` where a configuration was saved. -/
theorem no_dir_of_save {p q : Progress} (hp : p.disk = disk) {store : ConfigStore}
    (hpath : store.path = Path.join root fileName) (hsave : store.save p = (.ok (), q)) :
    disk.root.kindAt (place ++ [fileName]) ≠ some .dir := by
  intro hd
  have hstaged := staged hl hroom store.text
  have hrename := Disk.rename_leaf_to_dir hstaged.source hstaged.file rfl hstaged.target
    (hstaged.same ▸ hd)
  unfold save temporaryPath at hsave
  rw [hpath] at hsave
  simp only [bind, Session.change, hp, hstaged.write, hrename] at hsave
  cases hsave

end

/-- **Saving changes the configuration file** and nothing else, on a disk that is `Savable`. -/
theorem save_eq {p : Progress} (h : Savable p.disk root place) {store : ConfigStore}
    (hpath : store.path = Path.join root fileName) :
    store.save p =
      (.ok (), { p with disk := p.disk.withFile (place ++ [fileName]) store.text.toUTF8 }) := by
  have hroom : p.disk.root.Room place temporaryName :=
    ⟨h.home, .inl (by rw [Node.kindAt, h.free, Option.map_none])⟩
  rw [save_eq_cleared h.located hroom rfl h.no_dir hpath, h.cleared_eq]

end ConfigStore

end FlowMigration
