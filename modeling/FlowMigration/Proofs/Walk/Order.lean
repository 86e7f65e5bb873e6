import FlowMigration.Proofs.Walk.Pruned
import Mathlib.Data.List.Sort

/-!
# The order of a walk

A walk goes through a directory in the order of its names, and through what a directory holds before
it goes on. So what it comes to stands in the order of the names that lead there, compared one after
the other: all of `a` comes before `a-b`.

* `ascending_entries`: the order of what a walk comes to.
* `eq_of_ascending`: so it is known from what it comes to.
-/

namespace FlowMigration.Walk

variable {disk : Disk} {keep : List String → Node → Bool}

/-- What different entries `a` and `b` of a directory lead to is in their order. -/
theorem append_cons_lt {names more more' : List String} {a b : String} (h : a < b) :
    names ++ a :: more < names ++ b :: more' :=
  List.append_left_lt (List.cons_lt_cons_iff.2 (.inl h))

theorem lt_append_cons (names more : List String) (a : String) : names < names ++ a :: more := by
  have h : names ++ [] < names ++ a :: more := List.append_left_lt (List.nil_lt_cons a more)
  rwa [List.append_nil] at h

mutual

/-- **A walk `below` a directory** is in the order of the names that it comes by. -/
theorem ascending_below {layers : List IgnoreLayer} {place names : List String} :
    (entries : List (String × Node)) → (∀ entry ∈ entries, entry.2.WellFormed) →
      (entries.Pairwise fun a b => a.1 < b.1) →
      (below disk keep layers place names entries).Pairwise fun a b => a.names < b.names
  | [], _, _ => by simp [below]
  | entry :: rest, hw, hasc => by
    have hrest : ∀ x ∈ rest, x.2.WellFormed := fun x hx => hw x (List.mem_cons_of_mem _ hx)
    obtain ⟨hfirst, hasc⟩ := List.pairwise_cons.1 hasc
    rw [below]
    refine List.pairwise_append.2 ⟨ascending_belowEntry entry (hw entry List.mem_cons_self),
      ascending_below rest hrest hasc, fun a ha b hb => ?_⟩
    obtain ⟨more, han, -⟩ := mem_belowEntry entry (hw entry List.mem_cons_self) ha
    obtain ⟨entry', hmem, more', hbn, -⟩ := mem_below rest hrest hb
    rw [han, hbn]
    exact append_cons_lt (hfirst entry' hmem)

theorem ascending_belowEntry {layers : List IgnoreLayer} {place names : List String} :
    (entry : String × Node) → entry.2.WellFormed →
      (belowEntry disk keep layers place names entry).Pairwise fun a b => a.names < b.names
  | (name, .dir inside), hw => by
    rw [belowEntry]
    split
    · exact List.Pairwise.nil
    · refine List.pairwise_cons.2 ⟨fun b hb => ?_,
        ascending_below inside hw.inside hw.own.ascending⟩
      obtain ⟨entry, -, more, hbn, -⟩ := mem_below inside hw.inside hb
      rw [hbn]
      exact lt_append_cons _ _ _
  | (name, .file content), _ => by
    rw [belowEntry_leaf rfl]
    split <;> simp
  | (name, .link target), _ => by
    rw [belowEntry_leaf rfl]
    split <;> simp

end

/-- **A walk from `start`** is in the order of the names that it comes by. -/
theorem ascending_entries {start : String} {found : List WalkEntry} (hw : disk.root.WellFormed)
    (hfound : entries disk keep start = .ok found) :
    found.Pairwise fun a b => a.names < b.names := by
  obtain ⟨error, hk, -⟩ | ⟨first, hk, -, -⟩ | ⟨first, layers, place, inside, hnil, hdir, hk, -⟩ :=
    entries_full disk keep start
  all_goals
    rw [hk] at hfound
    cases hfound
  · exact List.pairwise_singleton _ _
  · have hwhole : (Node.dir inside).WellFormed := hw.get? hdir
    refine List.pairwise_cons.2 ⟨fun b hb => ?_,
      ascending_below inside hwhole.inside hwhole.own.ascending⟩
    obtain ⟨entry, -, more, hbn, -⟩ := mem_below inside hwhole.inside hb
    rw [hnil, hbn]
    exact List.nil_lt_cons _ _

/-- **Entries in their order** are known from what they are: `found` and `found'` have the same
members only where they are one list. -/
theorem eq_of_ascending {found found' : List WalkEntry}
    (h : found.Pairwise fun a b => a.names < b.names)
    (h' : found'.Pairwise fun a b => a.names < b.names) (hmem : ∀ e, e ∈ found ↔ e ∈ found') :
    found = found' := by
  have hirrefl : Std.Irrefl fun a b : WalkEntry => a.names < b.names :=
    ⟨fun a => List.lt_irrefl a.names⟩
  have hantisymm : Std.Antisymm fun a b : WalkEntry => a.names < b.names :=
    ⟨fun a b hab hba => absurd (List.lt_trans hab hba) (List.lt_irrefl a.names)⟩
  exact h.eq_of_mem_iff h' hmem

end FlowMigration.Walk
