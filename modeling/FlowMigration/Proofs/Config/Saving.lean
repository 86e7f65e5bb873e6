import FlowMigration.Proofs.Config.Save
import FlowMigration.Proofs.Disk.Move
import FlowMigration.Proofs.Disk.Names
import FlowMigration.Proofs.Results
import FlowMigration.Proofs.Session.Runs

/-!
# What saving a configuration does to a disk

Nothing is assumed here about what stands at the path of the configuration and beside it, so the
text may be written through a link, and a link may take the place of the configuration.

* `ConfigStore.Written`: the state between the two steps of `ConfigStore.save`; `exists_written`
  shows that `Disk.write` comes to it.
* `ConfigStore.save_eq_ok`: a successful `save` is one `Disk.write` and one `Disk.rename`.
* `Disk.KeepsFolders`, `ConfigStore.keepsFolders_of_save`: `save` makes no directory and takes none
  away.
-/

namespace FlowMigration

/-! ## Directories that stay -/

/-- The directories of `disk'` are those of `disk`, and `disk'` is well-formed. -/
structure Disk.KeepsFolders (disk disk' : Disk) : Prop where
  wellFormed : disk'.root.WellFormed
  kindAt : ∀ place, disk'.root.kindAt place = some .dir ↔ disk.root.kindAt place = some .dir

namespace Disk.KeepsFolders

variable {disk disk' disk'' : Disk}

theorem refl (hw : disk.root.WellFormed) : disk.KeepsFolders disk := ⟨hw, fun _ => Iff.rfl⟩

theorem trans (h : disk.KeepsFolders disk') (h' : disk'.KeepsFolders disk'') :
    disk.KeepsFolders disk'' :=
  ⟨h'.wellFormed, fun place => (h'.kindAt place).trans (h.kindAt place)⟩

end Disk.KeepsFolders

namespace Node

variable {root : Node} {here : List String}

/-- The names that lead to `name` in the directory at `here` are legal if `name` is. -/
theorem Throughout.legal_concat (hw : root.WellFormed) (hd : root.kindAt here = some .dir)
    {name : String} (hname : LegalName name) : ∀ n ∈ here ++ [name], LegalName n := by
  obtain ⟨es, hes⟩ := kindAt_eq_dir.1 hd
  intro n hn
  rcases List.mem_append.1 hn with hn | hn
  · exact hw.legal hes n hn
  · rw [List.mem_singleton.1 hn]
    exact hname

theorem Grown.kindAt_dir_iff {root' : Node} {c : List String} (h : Grown c root root')
    (place : List String) : root'.kindAt place = some .dir ↔ root.kindAt place = some .dir :=
  h.grownAt.kindAt_dir

theorem Moved.kindAt_dir_iff {root' : Node} {t n : List String} (h : Moved t n root root')
    (place : List String) : root'.kindAt place = some .dir ↔ root.kindAt place = some .dir := by
  refine ⟨h.kindAt_dir, fun hd => ?_⟩
  have ht : place ≠ t := fun he => h.leaf.2 (he ▸ hd)
  have hn : place ≠ n := fun he => h.free (he ▸ hd)
  rw [h.same place ht hn, hd]

end Node

/-- `Disk.withFile` adds no directory where there is `Room` for the file. -/
theorem Disk.keepsFolders_withFile {disk : Disk} {here : List String} {name : String}
    (hw : disk.root.WellFormed) (hroom : disk.root.Room here name) (hname : LegalName name)
    (content : ByteArray) : disk.KeepsFolders (disk.withFile (here ++ [name]) content) :=
  ⟨hw.put (.file content) (hw.legal_concat hroom.home hname),
    (Node.grown_put hroom content).kindAt_dir_iff⟩

namespace ConfigStore

variable {disk mid : Disk} {root text : String} {here : List String} {node : Node}

/-! ## The text is written -/

/-- `Path.join root fileName` and the path of the other file beside it have the same parent. -/
theorem exists_splitLast (root : String) :
    ∃ parent, Disk.splitLast (Path.join root fileName) = some (parent, fileName) ∧
      Disk.splitLast (Path.join root fileName ++ ".tmp") = some (parent, temporaryName) := by
  have hname := legal_fileName.toIsName
  have htmp := legal_temporaryName.toIsName
  obtain ⟨parent, hsplit⟩ := Disk.splitLast_join root hname
  obtain ⟨front, hps, hparent⟩ := Disk.splitLast_spec hsplit
  have hslash : ∀ p ∈ front ++ [temporaryName.toList], '/' ∉ p := by
    intro p hp
    rcases List.mem_append.1 hp with hp | hp
    · exact Path.no_slash_of_mem_pieces (hps ▸ List.mem_append_left _ hp)
    · rw [List.mem_singleton.1 hp]
      exact htmp.no_slash
  have htext : (Path.join root fileName ++ ".tmp").toList =
      Path.unpieces (front ++ [temporaryName.toList]) := by
    rw [String.toList_append, ← Path.unpieces_pieces (Path.join root fileName).toList, hps]
    by_cases hfront : front = []
    · subst hfront
      decide
    · rw [Path.unpieces_concat hfront, Path.unpieces_concat hfront, List.append_assoc,
        List.cons_append, temporaryName, String.toList_append]
  have hps' : Path.pieces (Path.join root fileName ++ ".tmp").toList =
      front ++ [temporaryName.toList] := by
    rw [htext, Path.pieces_unpieces (by simp) hslash]
  exact ⟨parent, hsplit, hparent ▸ Disk.splitLast_of_name hps' htmp⟩

/-- On `mid` the configuration of `root` has its place in `here`, and beside it there stands `node`,
the file that was just written or a link to it, which can be moved. -/
structure Written (mid : Disk) (root : String) (here : List String) (node : Node) : Prop where
  target : mid.place (Path.join root fileName) = .ok (here ++ [fileName])
  source : mid.place (Path.join root fileName ++ ".tmp") = .ok (here ++ [temporaryName])
  stands : mid.root.get? (here ++ [temporaryName]) = some node
  leaf : node.isDir = false
  /-- A link `node` leads to a file. -/
  unled : ∀ target place, node = .link target →
    Disk.follow mid.root Disk.maxLinks (Disk.start here target).1 (Disk.start here target).2 =
      .ok place → mid.root.kindAt place ≠ some .dir

/-- **The text is written** to the place `c` that `Disk.written` tells, where there is `Room` for
it, and that leaves a `Written` disk. -/
theorem exists_written (hw : disk.root.WellFormed) (htop : disk.root.kindAt [] = some .dir)
    {c : List String}
    (h : disk.written Disk.maxLinks (Path.join root fileName ++ ".tmp") = .ok c) (text : String) :
    ∃ there own here node, c = there ++ [own] ∧ disk.root.Room there own ∧ LegalName own ∧
      Written (disk.withFile c text.toUTF8) root here node := by
  obtain ⟨parent, hsplit, hsplit'⟩ := exists_splitLast root
  obtain ⟨there, own, rfl, hroom, hown⟩ := Disk.written_spec hw htop h
  have hgrown := Node.grown_put hroom text.toUTF8
  obtain ⟨place, hp, hcases⟩ := Disk.written_eq_ok h
  obtain ⟨hnul, here, hparent, rfl⟩ := (Disk.place_splitLast_eq_ok hsplit').1 hp
  have hnul' : '\x00' ∉ (Path.join root fileName).toList := fun hc => hnul (by simp [hc])
  have hparent' := Disk.locate_withFile hgrown hparent
  have hplace := (Disk.place_splitLast_eq_ok hsplit).2 ⟨hnul', here, hparent', rfl⟩
  have hplace' := (Disk.place_splitLast_eq_ok hsplit').2 ⟨hnul, here, hparent', rfl⟩
  -- the file that is written, or a link
  have hfile : there ++ [own] = here ++ [temporaryName] →
      (disk.withFile (there ++ [own]) text.toUTF8).root.get? (here ++ [temporaryName]) =
        some (.file text.toUTF8) := fun he => he ▸ Node.get?_put_file hroom _
  rcases hcases with ⟨-, he⟩ | ⟨-, -, -, he⟩ | ⟨target, left, -, hk, ht, hon⟩
  · exact ⟨there, own, here, _, rfl, hroom, hown, hplace, hplace', hfile he, rfl, by simp⟩
  · exact ⟨there, own, here, _, rfl, hroom, hown, hplace, hplace', hfile he, rfl, by simp⟩
  · have hne : here ++ [temporaryName] ≠ there ++ [own] := by
      intro he
      rcases hroom.free with hf | hf <;> rw [← he, hk] at hf <;> cases hf
    have hlink := Node.kindAt_eq_link.1 ((hgrown.same _ hne).trans hk)
    refine ⟨there, own, here, _, rfl, hroom, hown, hplace, hplace', hlink, rfl, ?_⟩
    intro target' place htarget hf
    cases htarget
    rw [List.dropLast_concat] at hon
    exact Disk.not_dir_of_written hw hgrown hk ht hon hf

/-! ## The text takes its place -/

namespace Written

theorem home (h : Written mid root here node) : mid.root.kindAt here = some .dir :=
  Node.kindAt_above (List.cons_ne_nil temporaryName [])
    (by rw [Node.kindAt, h.stands, Option.map_some])

theorem apart (here : List String) : here ++ [temporaryName] ≠ here ++ [fileName] := by
  intro he
  exact absurd (List.singleton_inj.1 (List.append_inj' he rfl).2) (by decide)

/-- A directory at the path of the configuration stays there: `rename` fails. -/
theorem rename_eq_error (h : Written mid root here node)
    (hdir : mid.root.kindAt (here ++ [fileName]) = some .dir) :
    mid.rename (Path.join root fileName ++ ".tmp") (Path.join root fileName) =
      .error .isDirectory :=
  Disk.rename_leaf_to_dir h.source h.stands h.leaf h.target hdir

/-- Otherwise `node` takes the place of the configuration. -/
theorem rename_eq_ok (h : Written mid root here node)
    (hdir : mid.root.kindAt (here ++ [fileName]) ≠ some .dir) :
    mid.rename (Path.join root fileName ++ ".tmp") (Path.join root fileName) = .ok { mid with
      root := node.put (mid.root.erase (here ++ [temporaryName])) (here ++ [fileName]) } :=
  Disk.rename_leaf h.source h.stands h.leaf h.target h.home hdir (apart here)

/-- Nothing but `node` has `Moved` then. -/
theorem moved (h : Written mid root here node)
    (hdir : mid.root.kindAt (here ++ [fileName]) ≠ some .dir) :
    Node.Moved (here ++ [temporaryName]) (here ++ [fileName]) mid.root
      (node.put (mid.root.erase (here ++ [temporaryName])) (here ++ [fileName])) :=
  Node.moved_put (by decide) h.stands h.leaf hdir

theorem wellFormed (h : Written mid root here node) (hw : mid.root.WellFormed) :
    (node.put (mid.root.erase (here ++ [temporaryName])) (here ++ [fileName])).WellFormed :=
  (hw.erase _).put (hw.get? h.stands) (hw.legal_concat h.home legal_fileName)

end Written

variable {p q : Progress} {store : ConfigStore}

/-- **A successful `save`** has written the text and moved what it was written to. -/
theorem save_eq_ok (h : store.save p = (.ok (), q)) :
    ∃ mid, p.disk.write store.temporaryPath store.text = .ok mid ∧
      mid.rename store.temporaryPath store.path = .ok q.disk := by
  obtain ⟨_, _, hwrite, hrename⟩ := Session.bind_eq_ok h
  unfold Session.change at hwrite hrename
  split at hwrite
  · next mid hmid =>
    cases hwrite
    split at hrename
    · next last hlast =>
      cases hrename
      exact ⟨mid, hmid, hlast⟩
    · cases hrename
  · cases hwrite

/-- **Saving a configuration** by `store` makes no directory and takes none away. -/
theorem keepsFolders_of_save (hw : p.disk.root.WellFormed)
    (htop : p.disk.root.kindAt [] = some .dir) (hpath : store.path = Path.join root fileName)
    (h : store.save p = (.ok (), q)) : p.disk.KeepsFolders q.disk := by
  obtain ⟨mid, hwrite, hrename⟩ := save_eq_ok h
  rw [temporaryPath, hpath] at hwrite hrename
  unfold Disk.write Disk.writeBytes at hwrite
  rw [Disk.writeThrough_eq] at hwrite
  obtain ⟨c, hwritten, rfl⟩ := map_eq_ok_iff.1 hwrite
  obtain ⟨there, own, here, node, rfl, hroom, hown, hstate⟩ :=
    exists_written hw htop hwritten store.text
  have hkeeps : p.disk.KeepsFolders (p.disk.withFile (there ++ [own]) store.text.toUTF8) :=
    Disk.keepsFolders_withFile hw hroom hown _
  by_cases hdir : (p.disk.withFile (there ++ [own]) store.text.toUTF8).root.kindAt
      (here ++ [fileName]) = some .dir
  · rw [hstate.rename_eq_error hdir] at hrename
    cases hrename
  · rw [hstate.rename_eq_ok hdir] at hrename
    rw [← Except.ok.inj hrename]
    exact hkeeps.trans ⟨hstate.wellFormed hkeeps.wellFormed, (hstate.moved hdir).kindAt_dir_iff⟩

end ConfigStore

end FlowMigration
