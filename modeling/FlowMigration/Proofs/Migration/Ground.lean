import FlowMigration.Proofs.Config.Reopening
import FlowMigration.Proofs.Migration.Folders

/-!
# The ground of a migration

A migration reads one disk after another, since it saves its configuration in between. What does not
change from disk to disk:

* `Ground`: a disk with a repository whose names hold no backslash, where no link stands at the path
  that a configuration is written to first.
* `Ground.saved`: saving a configuration leaves such a disk.
* `Trail.Of.grounds`: so all disks of a migration are such, and have the directories of the
  packages.
-/

namespace FlowMigration

open ConfigStore (fileName temporaryName cleared)

/-- A disk with a repository at `place` whose names hold no backslash. No link stands where its
configuration is written first. -/
structure Ground (root : String) (place : List String) (disk : Disk) : Prop where
  wellFormed : disk.root.WellFormed
  canonical : root = Disk.pathOf place
  home : disk.root.kindAt place = some .dir
  plain : ∀ node, disk.root.get? place = some node → node.Throughout NoBackslash
  unlinked : ∀ target, disk.root.kindAt (place ++ [temporaryName]) ≠ some (.link target)

namespace Ground

variable {root : String} {place : List String} {disk disk' : Disk} {store : ConfigStore}

theorem located (h : Ground root place disk) : disk.locate root = .ok place := by
  rw [h.canonical]
  exact Disk.locate_pathOf h.wellFormed (Node.kindAt_take (n := 0) h.home) (.inl h.home)

theorem plain_node (h : Ground root place disk) :
    ∀ node, disk.node root = .ok node → node.Throughout NoBackslash := by
  intro node hnode
  obtain ⟨entries, hes⟩ := Node.kindAt_eq_dir.1 h.home
  obtain rfl : Node.dir entries = node := by simpa [Disk.node, h.located, hes] using hnode
  exact h.plain _ hes

theorem entry_temporary (h : Ground root place disk) (hpath : store.path = Path.join root fileName)
    (target : String) : disk.entry store.temporaryPath ≠ .ok (.link target) := by
  intro he
  rw [ConfigStore.temporaryPath, hpath,
    ConfigStore.join_fileName_tmp (Disk.locate_eq_ok.1 h.located).2.1] at he
  obtain ⟨here, hp, hg⟩ := Disk.entry_eq_ok.1 he
  rw [Disk.place_join h.located h.home ConfigStore.legal_temporaryName] at hp
  obtain rfl : place ++ [temporaryName] = here := Except.ok.inj hp
  exact h.unlinked target (Node.kindAt_eq_link.2 hg)

/-- **Saving the configuration** of `store` leaves the ground. -/
theorem saved (h : Ground root place disk) (hpath : store.path = Path.join root fileName)
    (hs : store.Saves disk disk') : Ground root place disk' := by
  obtain ⟨p, q, hsave, rfl, rfl⟩ := hs
  obtain ⟨place', hl, hroom, hno, hq⟩ := ConfigStore.disk_of_save
    (Disk.locate_eq_ok.1 h.located).2.1 hpath (h.entry_temporary hpath) hsave
  obtain rfl : place = place' := Except.ok.inj (h.located.symm.trans hl)
  have hsavable := ConfigStore.savable_cleared h.wellFormed h.home hno
  obtain ⟨entries, hes⟩ := Node.kindAt_eq_dir.1 h.home
  rw [hq]
  refine ⟨hsavable.wellFormed_withFile _, h.canonical, (hsavable.room_withFile _).home, ?_, ?_⟩
  · -- of the names in the directory of the repository only that of the configuration is new
    intro node hnode
    have hcleared := Node.get?_erase_above (List.cons_ne_nil temporaryName []) hes
    have hput := Node.get?_put_above hcleared (.file store.text.toUTF8) [fileName]
    have hold := h.plain _ hes
    have htaken := hold.take temporaryName fun e he => hold.own e (List.mem_filter.1 he).1
    rw [Node.erase] at htaken hput
    rw [← Option.some.inj (hput.symm.trans hnode)]
    refine htaken.insert (.file _) fun e he => ?_
    rcases Entries.mem_insert he with rfl | he
    · exact (by decide : '\\' ∉ fileName.toList)
    · exact htaken.own e he
  · intro target hk
    rw [Node.kindAt, hsavable.free_withFile, Option.map_none] at hk
    cases hk

theorem keepsFolders (h : Ground root place disk) (hpath : store.path = Path.join root fileName)
    (hs : store.Saves disk disk') : disk.KeepsFolders disk' :=
  hs.keepsFolders h.wellFormed (Node.kindAt_take (n := 0) h.home) hpath

end Ground

/-! ## The disks of a migration -/

/-- **All packages are looked through on such a `Ground`**, whose directories stay. -/
theorem Visited.grounds {root sources : String} {collaborators : Option Collaborators}
    {store : ConfigStore} {place : List String} {disk last : Disk} {visits : List Visit}
    (h : Visited root sources collaborators store disk visits last)
    (hpath : store.path = Path.join root fileName) (hg : Ground root place disk) :
    ∀ v ∈ visits, Ground root place v.disk ∧ disk.KeepsFolders v.disk := by
  induction h with
  | done store disk => simp
  | next seen saved more ih =>
    intro v hv
    rcases List.mem_cons.1 hv with rfl | hv
    · exact ⟨hg, .refl hg.wellFormed⟩
    · rw [← ConfigStore.path_record] at hpath
      obtain ⟨hground, hkeep⟩ := ih hpath (hg.saved hpath saved) v hv
      exact ⟨hground, (hg.keepsFolders hpath saved).trans hkeep⟩

namespace Trail

variable {t : Trail} {settings : Settings} {collaborators : Option Collaborators}
  {disk last : Disk} {report : Report}

/-- **The disks of a migration**: they have the same `Ground`, and the packages are folders on all
of them. -/
theorem Of.grounds (h : t.Of settings collaborators disk report last) (hlegal : disk.Legal)
    (hplain : ∀ node, disk.node t.root = .ok node → node.Throughout NoBackslash)
    (hlink : ∀ target, disk.entry t.store.temporaryPath ≠ .ok (.link target)) :
    ∃ place, ∀ v ∈ t.visits, Ground t.root place v.disk ∧
      ∀ e ∈ Topology.build t.records, PackageScope.Folder v.disk t.root e.parts := by
  obtain ⟨place, hhome, hl, hroot⟩ := h.exists_home hlegal
  have hne : t.root ≠ "" := (Disk.locate_eq_ok.1 hl).2.1
  obtain ⟨p, q, hopen, rfl, hq⟩ := h.opened
  rw [ConfigStore.temporaryPath, h.path_store] at hlink
  -- the first disk
  have hground : Ground t.root place p.disk := by
    refine ⟨hlegal.wellFormed, hroot, hhome, ?_, ?_⟩
    · intro node hnode
      exact hplain node (by simp [Disk.node, hl, hnode])
    · intro target hk
      refine hlink target ?_
      rw [ConfigStore.join_fileName_tmp hne]
      exact Disk.entry_eq_ok.2 ⟨_, Disk.place_join hl hhome ConfigStore.legal_temporaryName,
        Node.kindAt_eq_link.1 hk⟩
  -- the disk on which the manifests are found
  have hopened : Ground t.root place t.opened := by
    rw [← hq]
    rcases ConfigStore.saves_of_openAt hopen with hsame | hsaves
    · rw [hsame]
      exact hground
    · exact hground.saved h.path_store hsaves
  have hpath : (t.store.retain t.live).path = Path.join t.root fileName := by
    rw [ConfigStore.path_retain, h.path_store]
  obtain ⟨start, hstart, hvisited⟩ := h.visited
  have hbegun : Ground t.root place start ∧ t.opened.KeepsFolders start := by
    split at hstart
    · rw [hstart]
      exact ⟨hopened, .refl hopened.wellFormed⟩
    · exact ⟨hopened.saved hpath hstart, hopened.keepsFolders hpath hstart⟩
  refine ⟨place, fun v hv => ?_⟩
  obtain ⟨hown, hkeep⟩ := hvisited.grounds hpath hbegun.1 v hv
  refine ⟨hown, fun e he => ?_⟩
  obtain ⟨⟨place', hl', hdir⟩, hlegal, hback⟩ :=
    PackageScope.package_folder hopened.wellFormed hopened.plain_node h.records he
  obtain rfl : place = place' := Except.ok.inj (hopened.located.symm.trans hl')
  exact ⟨⟨place, hown.located, fun hne => ((hbegun.2.trans hkeep).kindAt _).2 (hdir hne)⟩, hlegal,
    hback⟩

end Trail

end FlowMigration
