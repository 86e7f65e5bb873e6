import Mathlib.Data.List.Basic

/-!
# Texts and their lines

Texts that are put together from others, and the lines that they are made of.

* `forall_mem_intercalate`: the characters of texts with separators between them.
* `linesOf`: the lines of a text.
* `Lines`: a text is made of whole lines, and some of them are given.
-/

namespace FlowMigration.Text

/-- What holds for the characters of `texts` and of a separator `sep` holds when they are joined. -/
theorem forall_mem_intercalate {p : Char → Prop} {sep : String} {texts : List String}
    (hsep : ∀ c ∈ sep.toList, p c) (h : ∀ text ∈ texts, ∀ c ∈ text.toList, p c) :
    ∀ c ∈ (sep.intercalate texts).toList, p c := by
  rw [String.toList_intercalate]
  induction texts with
  | nil => simp
  | cons text texts ih =>
    obtain ⟨htext, htexts⟩ := List.forall_mem_cons.1 h
    cases texts with
    | nil =>
      rw [List.map_singleton, List.intercalate_singleton]
      exact htext
    | cons next texts =>
      rw [List.map_cons, List.map_cons, List.intercalate_cons_cons, ← List.map_cons,
        List.forall_mem_append, List.forall_mem_append]
      exact ⟨⟨htext, hsep⟩, ih htexts⟩

/-! ## Lines -/

/-- The lines of `text`; behind the end of the last one there is an empty one. -/
def linesOf (text : String) : List String := (text.toList.splitOn '\n').map String.ofList

/-- A text `cs` is made of whole lines, some of which are the `lines`, in this order. -/
def Lines (cs : List Char) (lines : List String) : Prop :=
  ∃ all : List (List Char), (lines.map String.toList).Sublist all ∧
    ∀ rest, (cs ++ rest).splitOn '\n' = all ++ rest.splitOn '\n'

namespace Lines

variable {cs cs' : List Char} {lines lines' : List String}

theorem nil : Lines [] [] := ⟨[], .slnil, fun _ => rfl⟩

theorem append (h : Lines cs lines) (h' : Lines cs' lines') :
    Lines (cs ++ cs') (lines ++ lines') := by
  obtain ⟨all, hsub, hall⟩ := h
  obtain ⟨all', hsub', hall'⟩ := h'
  refine ⟨all ++ all', ?_, fun rest => ?_⟩
  · rw [List.map_append]
    exact hsub.append hsub'
  · rw [List.append_assoc, hall, hall', List.append_assoc]

theorem flatMap {α : Type} {xs : List α} {f : α → List Char} {g : α → List String}
    (h : ∀ x ∈ xs, Lines (f x) (g x)) : Lines (xs.flatMap f) (xs.flatMap g) := by
  induction xs with
  | nil => exact nil
  | cons x xs ih =>
    obtain ⟨hx, hxs⟩ := List.forall_mem_cons.1 h
    rw [List.flatMap_cons, List.flatMap_cons]
    exact hx.append (ih hxs)

theorem splitOn_ended (cs rest : List Char) :
    (cs ++ ['\n'] ++ rest).splitOn '\n' = cs.splitOn '\n' ++ rest.splitOn '\n' := by
  simp only [List.append_assoc, List.singleton_append, List.splitOn_eq_splitOnP]
  exact List.splitOnP_append_cons cs rest (beq_self_eq_true _)

/-- A text `cs` that ends with the end of a line. -/
theorem of_ended (h : cs.getLast? = some '\n') : Lines cs [] := by
  obtain ⟨front, rfl⟩ := List.getLast?_eq_some_iff.1 h
  exact ⟨front.splitOn '\n', List.nil_sublist _, splitOn_ended front⟩

theorem of_line {line : String} (h : '\n' ∉ line.toList) :
    Lines (line.toList ++ ['\n']) [line] := by
  have hone : line.toList.splitOn '\n' = [line.toList] := by
    have hsplit : (['\n'].intercalate [line.toList]).splitOn '\n' = [line.toList] :=
      List.splitOn_intercalate '\n' (by simpa using h) (by simp)
    rwa [List.intercalate_singleton] at hsplit
  exact ⟨[line.toList], .refl _, fun rest => by rw [splitOn_ended, hone]⟩

theorem sublist {text : String} (h : Lines text.toList lines) : lines.Sublist (linesOf text) := by
  obtain ⟨all, hsub, hall⟩ := h
  have hsplit := hall []
  rw [List.append_nil] at hsplit
  have hid : String.ofList ∘ String.toList = id := funext fun _ => String.ofList_toList
  have hlines := hsub.map String.ofList
  rw [List.map_map, hid, List.map_id] at hlines
  rw [linesOf, hsplit, List.map_append]
  exact hlines.trans (List.sublist_append_left _ _)

end Lines

end FlowMigration.Text
