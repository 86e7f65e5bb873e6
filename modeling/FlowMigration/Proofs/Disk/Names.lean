import FlowMigration.Proofs.Disk.Follow

/-!
# Paths that end in a name

A path and a name below it.

* `splitLast_join`, `place_join`: the name is the last one of the joined path, and its place is in
  the directory that the path leads to.
* `locate_of_place_join`, `exists_entry_of_locate_join`: a joined path leads through a directory to
  which the path itself leads.
-/

namespace FlowMigration.Disk

variable {disk : Disk} {root : String} {place : List String} {name : String}

theorem splitLast_of_name {path : String} {front : List (List Char)}
    (hps : Path.pieces path.toList = front ++ [name.toList]) (hn : Path.IsName name) :
    splitLast path = some (parentText front, name) := by
  have hne : ∀ text : String, name ≠ text → name.toList ≠ text.toList := fun _ h he =>
    h (String.toList_injective he)
  have hplain : ¬(name.toList = [] ∨ name.toList = ['.'] ∨ name.toList = ['.', '.']) := by
    rintro (h | h | h)
    · exact hne "" hn.ne_empty h
    · exact hne "." hn.ne_here h
    · exact hne ".." hn.ne_up h
  unfold splitLast
  simp only [hps, List.getLast?_concat, List.dropLast_concat, List.length_append,
    List.length_singleton]
  rw [if_neg hplain]
  simp [parentText]

theorem splitLast_join (root : String) (hn : Path.IsName name) :
    ∃ parent, splitLast (Path.join root name) = some (parent, name) := by
  obtain ⟨front, last, hps⟩ := Path.exists_pieces_concat (Path.join root name).toList
  have hlast : last = name.toList := by
    have hends := Path.getLast?_pieces_join root name
    rw [hps, List.getLast?_concat, Path.pieces_of_no_slash hn.no_slash] at hends
    exact Option.some.inj hends
  subst hlast
  exact ⟨_, splitLast_of_name hps hn⟩

/-- **The `place` of a name** in the directory that a path leads to. -/
theorem place_join (hl : disk.locate root = .ok place) (hd : disk.root.kindAt place = some .dir)
    (hn : LegalName name) : disk.place (Path.join root name) = .ok (place ++ [name]) := by
  obtain ⟨hnul, hne, hf⟩ := locate_eq_ok.1 hl
  have hname : ∀ n ∈ [name], Path.IsName n := List.forall_mem_singleton.2 hn.toIsName
  have hnul' : '\x00' ∉ (Path.join root name).toList := by
    intro hc
    rw [← Path.joinAll_singleton, Path.toList_joinAll hne hname] at hc
    rcases Path.mem_withNames hc with hc | hc | ⟨n, hmem, hc⟩
    · exact hnul hc
    · exact absurd hc (by decide)
    · rw [List.mem_singleton.1 hmem] at hc
      exact hn.no_nul hc
  obtain ⟨front, hstart, hfront⟩ := start_joinAll hne hname disk.workingDir
  rw [Path.joinAll_singleton] at hstart
  obtain ⟨parent, hsplit⟩ := splitLast_join root hn.toIsName
  obtain ⟨front', hstart', -, hparent⟩ := locate_parent disk place hsplit hnul'
  rw [hstart] at hstart' hparent
  obtain ⟨rfl, -⟩ := List.append_inj' hstart' rfl
  have hlocate := hparent (follow_front hfront hf) hd
  exact (place_splitLast_eq_ok hsplit).2 ⟨hnul', place, hlocate, rfl⟩

/-- A path that is joined to a `name` leads where its pieces `front` in front of the name do, if
that is a directory. -/
theorem locate_of_front (hne : root ≠ "") (hn : Path.IsName name)
    (hnul : '\x00' ∉ (Path.join root name).toList) {front : List (List Char)}
    (hfront : (start disk.workingDir root).2 = front ∨ (start disk.workingDir root).2 = front ++ [[]])
    (hf : follow disk.root maxLinks (start disk.workingDir root).1 front = .ok place)
    (hd : disk.root.kindAt place = some .dir) : disk.locate root = .ok place := by
  refine locate_eq_ok.2 ⟨fun hc => hnul ?_, hne, ?_⟩
  · rw [Path.toList_join hne hn.not_absolute, Path.closed]
    split <;> simp [hc]
  · rcases hfront with hfront | hfront <;> rw [hfront]
    · exact hf
    · obtain ⟨left, -, hrest⟩ := follow_append_of_ok hf
      rw [hrest]
      exact (follow_idle (.inl rfl)).2 ⟨hd, rfl⟩

/-- **A directory that a `name` is looked for in** is where the path before the name leads. -/
theorem locate_of_place_join (hne : root ≠ "") (hn : Path.IsName name) {there : List String}
    (hp : disk.place (Path.join root name) = .ok there)
    (hd : disk.root.kindAt there.dropLast = some .dir) :
    ∃ place, there = place ++ [name] ∧ disk.locate root = .ok place := by
  obtain ⟨parent, hsplit⟩ := splitLast_join root hn
  obtain ⟨hnul, place, hl, rfl⟩ := (place_splitLast_eq_ok hsplit).1 hp
  rw [List.dropLast_concat] at hd
  obtain ⟨front, hstart, hfront⟩ := start_joinAll hne (List.forall_mem_singleton.2 hn)
    disk.workingDir
  rw [Path.joinAll_singleton] at hstart
  obtain ⟨front', hstart', hparent, -⟩ := locate_parent disk place hsplit hnul
  rw [hstart] at hstart' hparent
  obtain ⟨rfl, -⟩ := List.append_inj' hstart' rfl
  exact ⟨place, rfl, locate_of_front hne hn hnul hfront (hparent hl) hd⟩

/-- **A joined path that leads somewhere** leads through an entry `name` of a directory. -/
theorem exists_entry_of_locate_join (hne : root ≠ "") (hn : Path.IsName name) {there : List String}
    (h : disk.locate (Path.join root name) = .ok there) :
    ∃ place, disk.locate root = .ok place ∧ disk.root.kindAt place = some .dir ∧
      disk.root.kindAt (place ++ [name]) ≠ none := by
  obtain ⟨hnul, -, hf⟩ := locate_eq_ok.1 h
  obtain ⟨front, hstart, hfront⟩ := start_joinAll hne (List.forall_mem_singleton.2 hn)
    disk.workingDir
  rw [Path.joinAll_singleton] at hstart
  rw [hstart] at hf
  obtain ⟨left, place, -, hfollow, hf⟩ := exists_mid_of_follow hf
  obtain ⟨left', next, more, hl, -⟩ := follow_cons_ok.1 hf
  have hlocate := locate_of_front hne hn hnul hfront hfollow
  have hplain : ∀ text : String, name ≠ text → name.toList ≠ text.toList := fun _ h he =>
    h (String.toList_injective he)
  cases hl with
  | idle hd hp =>
    rcases hp with hp | hp
    · exact absurd hp (hplain "" hn.ne_empty)
    · exact absurd hp (hplain "." hn.ne_here)
  | up hd hp => exact absurd hp (hplain ".." hn.ne_up)
  | entry hd _ hk =>
    rw [String.ofList_toList] at hk
    exact ⟨place, hlocate hd, hd, by rcases hk with hk | hk <;> simp [hk]⟩
  | link hd _ hk _ =>
    rw [String.ofList_toList] at hk
    exact ⟨place, hlocate hd, hd, by simp [hk]⟩

end FlowMigration.Disk
