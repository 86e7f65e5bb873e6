import FlowMigration.Text.Category

/-! # Pragmas

The marker that turns a file over to Flow, in the comments in front of its code.

* `Pragma.leadingComments`: the comments in front of the first code of a text.
* `Pragma.decide`: the first comment with a marker decides.
-/

namespace FlowMigration.Pragma

def flow : String := "@flow"

def noFlow : String := "@noflow"

/-! ## Leading comments -/

/-- The text up to and including the first `*/`, and the rest. -/
def untilClose : List Char → Option (List Char × List Char)
  | [] => none
  | '*' :: '/' :: rest => some (['*', '/'], rest)
  | c :: rest => (untilClose rest).map fun (body, rest) => (c :: body, rest)

theorem untilClose_length {cs body rest : List Char} (h : untilClose cs = some (body, rest)) :
    rest.length < cs.length := by
  induction cs using untilClose.induct generalizing body with
  | case1 => simp [untilClose] at h
  | case2 more =>
    simp only [untilClose, Option.some.injEq, Prod.mk.injEq] at h
    obtain ⟨-, rfl⟩ := h
    simp only [List.length_cons]
    omega
  | case3 c more hne ih =>
    rw [untilClose.eq_3 _ _ hne, Option.map_eq_some_iff] at h
    obtain ⟨⟨b, r⟩, hr, he⟩ := h
    simp only [Prod.mk.injEq] at he
    obtain ⟨-, rfl⟩ := he
    exact Nat.lt_succ_of_lt (ih hr)

/-- The comment that a text begins with, if it does: up to the end of the line or up to its close
(`untilClose`). -/
def comment? : List Char → Option (List Char × List Char)
  | '/' :: '/' :: rest =>
    some ('/' :: '/' :: rest.takeWhile (· ≠ '\n'), rest.dropWhile (· ≠ '\n'))
  | '/' :: '*' :: rest => (untilClose rest).map fun (body, rest) => ('/' :: '*' :: body, rest)
  | _ => none

theorem comment?_length {cs comment rest : List Char} (h : comment? cs = some (comment, rest)) :
    rest.length < cs.length := by
  unfold comment? at h
  split at h
  · next more =>
    simp only [Option.some.injEq, Prod.mk.injEq] at h
    obtain ⟨-, rfl⟩ := h
    have := (List.dropWhile_sublist (fun c : Char => decide (c ≠ '\n')) (l := more)).length_le
    simp only [List.length_cons]
    omega
  · next more =>
    rw [Option.map_eq_some_iff] at h
    obtain ⟨⟨b, r⟩, hr, he⟩ := h
    simp only [Prod.mk.injEq] at he
    obtain ⟨-, rfl⟩ := he
    have := untilClose_length hr
    simp only [List.length_cons]
    omega
  · simp at h

/-- The comments that `cs` begins with, blanks between them apart, each by `comment?`. -/
def commentsFrom (cs : List Char) : List (List Char) :=
  match h : comment? (cs.dropWhile Text.isBlank) with
  | none => []
  | some (comment, rest) =>
    have : rest.length < cs.length := Nat.lt_of_lt_of_le (comment?_length h)
      (List.dropWhile_sublist Text.isBlank).length_le
    comment :: commentsFrom rest
termination_by cs.length

/-- A text without the line at its start that names an interpreter. -/
def dropInterpreter : List Char → List Char
  | '#' :: '!' :: rest => rest.dropWhile (· ≠ '\n')
  | cs => cs

/-- The comments in front of the first code of `source`. -/
def leadingComments (source : String) : List String :=
  (commentsFrom (dropInterpreter source.toList)).map String.ofList

/-! ## Deciding -/

/-- Whether `c` goes on with the word that a pragma is. -/
def continues (c : Char) : Bool := Text.isAlphanumeric c || c == '_' || c == '-'

/-- Whether `pragma` stands in a text as a word of its own. -/
def occursIn (pragma : List Char) : List Char → Bool
  | [] => pragma.isEmpty
  | c :: rest =>
    (pragma.isPrefixOf (c :: rest) && !((c :: rest).drop pragma.length).head?.any continues) ||
      occursIn pragma rest

/-- Whether comments turn a file over to Flow: the first one with a marker decides, and in it the
marker against Flow (`noFlow`). -/
def decide : List String → Bool
  | [] => false
  | comment :: rest =>
    if occursIn noFlow.toList comment.toList then false
    else if occursIn flow.toList comment.toList then true
    else decide rest

end FlowMigration.Pragma
