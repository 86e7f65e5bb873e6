import FlowMigration.Proofs.Migration.Trail
import FlowMigration.Proofs.Package.Discovery

/-!
# The directories that a migration finds

A migration loads the manifests from `Trail.opened`, the disk on which its configuration has been
opened. Where no configuration was there, that is another disk than the one it came to, but no
directory is new on it.

* `ConfigStore.saves_of_openAt`: `openAt` leaves the disk alone or saves the configuration.
* `Trail.Of.exists_home`: the root is the absolute path of a directory.
* `Trail.Of.keepsFolders`: `Trail.opened` has the directories of the disk that the migration came
  to.
* `Trail.Of.ascending`, `Trail.Of.nodup_paths`: so where these have names without a backslash the
  manifests are in order and have distinct paths.
-/

namespace FlowMigration

open ConfigStore (fileName)

namespace ConfigStore

@[simp] theorem path_record (store : ConfigStore) (key : String) (package : PackageConfig) :
    (store.record key package).path = store.path := rfl

@[simp] theorem path_retain (store : ConfigStore) (live : List String) :
    (store.retain live).path = store.path := rfl

/-- `openAt` changes nothing where it finds a configuration, and saves one where it does not. -/
theorem saves_of_openAt {p q : Progress} {root : String} {defaults : MigrationConfig}
    {store : ConfigStore} (h : openAt root defaults p = (.ok store, q)) :
    q.disk = p.disk ∨ store.Saves p.disk q.disk := by
  cases hexists : p.disk.pathExists (Path.join root fileName) with
  | true => exact .inl ((runs_openAt_found hexists defaults).of_eq h).2.symm
  | false =>
    rw [openAt, Session.disk_bind] at h
    dsimp only at h
    rw [if_neg (by simp [hexists]), Session.info_bind] at h
    obtain ⟨_, _, hsave, h⟩ := Session.bind_eq_ok h
    cases h
    exact .inr ⟨_, _, hsave, rfl, rfl⟩

/-- A disk that a configuration `Saves` to has the same directories. -/
theorem Saves.keepsFolders {disk disk' : Disk} {store : ConfigStore} {root : String}
    (h : store.Saves disk disk') (hw : disk.root.WellFormed)
    (htop : disk.root.kindAt [] = some .dir) (hpath : store.path = Path.join root fileName) :
    disk.KeepsFolders disk' := by
  obtain ⟨p, q, hsave, rfl, rfl⟩ := h
  exact keepsFolders_of_save hw htop hpath hsave

end ConfigStore

/-- **Folders at `place` stay plain**, as no directory is made. -/
theorem Disk.KeepsFolders.plainFolders {disk disk' : Disk} (h : disk.KeepsFolders disk')
    {place : List String} (hplain : disk.PlainFolders place) : disk'.PlainFolders place :=
  fun names hd => hplain names ((h.kindAt _).1 hd)

namespace Trail

variable {t : Trail} {settings : Settings} {collaborators : Option Collaborators}
  {disk last : Disk} {report : Report}

theorem Of.path_store (h : t.Of settings collaborators disk report last) :
    t.store.path = Path.join t.root fileName := by
  obtain ⟨p, q, hopen, -⟩ := h.opened
  exact Migration.path_of_openAt hopen

section
variable (h : t.Of settings collaborators disk report last) (hlegal : disk.Legal)
include h hlegal

/-- **The root of a migration** is the absolute path of the directory at some `place`. -/
theorem Of.exists_home : ∃ place, disk.root.kindAt place = some .dir ∧
    disk.locate t.root = .ok place ∧ t.root = Disk.pathOf place := by
  obtain ⟨p, q, hopen, rfl, -⟩ := h.opened
  obtain ⟨there, hthere⟩ := Migration.locate_of_load h.records
  obtain ⟨place, hl, hhome⟩ := ConfigStore.exists_home (Disk.locate_eq_ok.1 hthere).2.1 hopen
  exact ⟨place, hhome, hl, Settings.eq_pathOf_of_findRoot hlegal h.root hl⟩

/-- **Opening the configuration** makes no directory of `disk` and takes none away. -/
theorem Of.keepsFolders : disk.KeepsFolders t.opened := by
  obtain ⟨p, q, hopen, rfl, hq⟩ := h.opened
  rw [← hq]
  rcases ConfigStore.saves_of_openAt hopen with hsame | hsaves
  · rw [hsame]
    exact .refl hlegal.wellFormed
  · exact hsaves.keepsFolders hlegal.wellFormed hlegal.top h.path_store

/-- **The manifests of a migration** are in the order of the names that lead to them, where no name
below `t.root` holds a backslash. -/
theorem Of.ascending
    (hplain : ∀ node, disk.node t.root = .ok node → node.Throughout NoBackslash) :
    (t.records.map fun r => Path.segments r.path).Pairwise (· < ·) := by
  obtain ⟨place, hhome, hl, hroot⟩ := h.exists_home hlegal
  have hkeeps := h.keepsFolders hlegal
  have hhome' := (hkeeps.kindAt place).2 hhome
  have hl' : t.opened.locate t.root = .ok place :=
    hroot ▸ Disk.locate_pathOf hkeeps.wellFormed ((hkeeps.kindAt []).2 hlegal.top) (.inl hhome')
  obtain ⟨entries, hes⟩ := Node.kindAt_eq_dir.1 hhome'
  refine ManifestRecord.ascending_of_load hkeeps.wellFormed ?_ hl'
    (hkeeps.plainFolders (Disk.plainFolders_of_node hplain hl)) h.records
  simp [Disk.isDir, Disk.node, hl', hes]

theorem Of.nodup_paths
    (hplain : ∀ node, disk.node t.root = .ok node → node.Throughout NoBackslash) :
    (t.records.map (·.path)).Nodup := by
  refine List.pairwise_map.2 ((List.pairwise_map.1 (h.ascending hlegal hplain)).imp ?_)
  intro r r' hlt hsame
  rw [hsame] at hlt
  exact List.lt_irrefl _ hlt

end

end Trail

end FlowMigration
