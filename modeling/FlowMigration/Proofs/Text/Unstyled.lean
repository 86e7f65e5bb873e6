import FlowMigration.Text.Styled

/-!
# Text without its styles

A terminal is told a style by a sequence of an escape character, an opening bracket, digits and
semicolons, and an `m`. What remains of a rendered text when all of them are deleted is the text
itself, provided that it holds no escape character of its own.

* `Text.unstyle`: the text without the sequences.
* `Styled.unstyle_render`: nothing else is lost by it.
-/

namespace FlowMigration.Text

/-- What a sequence for the terminal may hold. -/
def Style.isParameter (c : Char) : Bool := c.isDigit || c == ';'

/-- What stands behind the sequence that a text begins with, if it begins with one. -/
def Style.behind? : List Char → Option (List Char)
  | '\x1b' :: '[' :: rest =>
    match rest.dropWhile isParameter with
    | 'm' :: after => some after
    | _ => none
  | _ => none

theorem Style.length_lt_of_behind? {cs after : List Char} (h : behind? cs = some after) :
    after.length < cs.length := by
  unfold behind? at h
  split at h
  · next rest =>
    split at h
    · next heq =>
      obtain rfl := Option.some.inj h
      have hle := (List.dropWhile_suffix (l := rest) isParameter).length_le
      rw [heq, List.length_cons] at hle
      simp only [List.length_cons]
      omega
    · cases h
  · cases h

/-- A text without the sequences for the terminal. -/
def unstyle : List Char → List Char
  | [] => []
  | c :: rest =>
    match _h : Style.behind? (c :: rest) with
    | some after => unstyle after
    | none => c :: unstyle rest
termination_by cs => cs.length
decreasing_by
  · exact Style.length_lt_of_behind? _h
  · exact Nat.lt_succ_self _

/-! ## Deleting one sequence -/

@[simp] theorem unstyle_nil : unstyle [] = [] := by rw [unstyle]

theorem Style.behind?_of_ne {c : Char} (h : c ≠ '\x1b') (rest : List Char) :
    behind? (c :: rest) = none := by
  unfold behind?
  split
  · next heq => exact absurd (List.cons.inj heq).1 h
  · rfl

theorem unstyle_of_behind? {cs after : List Char} (h : Style.behind? cs = some after) :
    unstyle cs = unstyle after := by
  cases cs with
  | nil => cases h
  | cons c rest =>
    rw [unstyle]
    split
    · next heq => rw [Option.some.inj (h.symm.trans heq)]
    · next heq => exact absurd (h.symm.trans heq) (by simp)

theorem unstyle_cons_of_ne {c : Char} (h : c ≠ '\x1b') (rest : List Char) :
    unstyle (c :: rest) = c :: unstyle rest := by
  have hnone := Style.behind?_of_ne h rest
  rw [unstyle]
  split
  · next heq => exact absurd (heq.symm.trans hnone) (by simp)
  · rfl

theorem unstyle_append {cs : List Char} (h : '\x1b' ∉ cs) (rest : List Char) :
    unstyle (cs ++ rest) = cs ++ unstyle rest := by
  induction cs with
  | nil => rfl
  | cons c cs ih =>
    rw [List.mem_cons, not_or] at h
    rw [List.cons_append, unstyle_cons_of_ne (Ne.symm h.1), ih h.2, List.cons_append]

theorem unstyle_sequence {codes : List Char} (h : ∀ c ∈ codes, Style.isParameter c = true)
    (rest : List Char) :
    unstyle ('\x1b' :: '[' :: (codes ++ ['m']) ++ rest) = unstyle rest := by
  refine unstyle_of_behind? ?_
  have hdrop : (codes ++ ['m'] ++ rest).dropWhile Style.isParameter = 'm' :: rest := by
    rw [List.append_assoc, List.dropWhile_append_of_pos h]
    rfl
  simp only [List.cons_append, Style.behind?, hdrop]

namespace Styled

/-! ## Rendered text -/

theorem isParameter_of_mem_codes (style : Style) :
    ∀ c ∈ style.codes.toList, Style.isParameter c = true := by
  cases style <;> exact List.all_eq_true.1 (by decide)

theorem unstyle_opening (style : Style) (rest : List Char) :
    unstyle (style.opening ++ rest) = unstyle rest :=
  unstyle_sequence (isParameter_of_mem_codes style) rest

theorem unstyle_closing (rest : List Char) : unstyle (Style.closing ++ rest) = unstyle rest := by
  have hcodes : ∀ c ∈ ['0'], Style.isParameter c = true := List.all_eq_true.1 (by decide)
  exact unstyle_sequence hcodes rest

theorem reopen_eq_self (style : Style) {cs : List Char} (h : '\x1b' ∉ cs) :
    reopen style cs = cs := by
  induction cs with
  | nil => rw [reopen]
  | cons c cs ih =>
    rw [List.mem_cons, not_or] at h
    rw [reopen, ih h.2]
    intro rest heq
    exact absurd heq (Ne.symm h.1)

theorem renderPiece_false (piece : Styled) : renderPiece false piece = piece.text.toList := by
  rw [renderPiece]
  rintro style ⟨⟩

/-- **A `piece` with its style** is its text when the style is deleted. -/
theorem unstyle_renderPiece {piece : Styled} (h : '\x1b' ∉ piece.text.toList) (rest : List Char) :
    unstyle (renderPiece true piece ++ rest) = renderPiece false piece ++ unstyle rest := by
  rw [renderPiece_false]
  cases hstyle : piece.style with
  | none => simp only [renderPiece, hstyle, unstyle_append h]
  | some style =>
    calc unstyle (renderPiece true piece ++ rest)
        = unstyle (style.opening ++ (piece.text.toList ++ (Style.closing ++ rest))) := by
          simp only [renderPiece, hstyle, reopen_eq_self style h, List.append_assoc]
      _ = piece.text.toList ++ unstyle (Style.closing ++ rest) := by
          rw [unstyle_opening, unstyle_append h]
      _ = piece.text.toList ++ unstyle rest := by rw [unstyle_closing]

/-- **A rendered text** is the text of its `pieces` without styles when they are deleted. -/
theorem unstyle_render {pieces : List Styled} (h : ∀ piece ∈ pieces, '\x1b' ∉ piece.text.toList) :
    String.ofList (unstyle (render true pieces).toList) = render false pieces := by
  rw [render, render, String.toList_ofList]
  congr 1
  induction pieces with
  | nil => rw [List.flatMap_nil, unstyle_nil, List.flatMap_nil]
  | cons piece pieces ih =>
    obtain ⟨hpiece, hpieces⟩ := List.forall_mem_cons.1 h
    rw [List.flatMap_cons, unstyle_renderPiece hpiece, ih hpieces, List.flatMap_cons]

end Styled

end FlowMigration.Text
