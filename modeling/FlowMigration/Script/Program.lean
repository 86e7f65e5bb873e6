import FlowMigration.Script.Grammar.Statement

/-! # Source files

* `Grammar.reader`: reads phrases of every kind, nested up to some depth.
* `Program.read`: what a source file says, if it can be read to its end.
* `Program.exists_askings`: what it asks for stands in the source, one asking before the other.
-/

namespace FlowMigration.Script

namespace Grammar

/-- Reads a phrase whose parts are read by `read`. -/
def phrase (read : Reader) : Reader
  | .statement alone => statement read alone
  | .assignment returnType => plainExpression read returnType
  | .unary => unary read
  | .operand => operand read
  | .constructor => constructor read
  | .type => anyType read
  | .typeOperand => operandType read
  | .binding => bindingTarget read
  | .element child => element read child

/-- Reads phrases that are nested no deeper than `depth`. -/
def reader : (depth : Nat) → Reader
  | 0 => fun _ => Parser.fail
  | depth + 1 => fun p => phrase (reader depth) p

end Grammar

/-- What a source file says, as `read` finds it. -/
structure Program where
  /-- The comments in front of its code. -/
  comments : List String
  /-- The modules that it asks for, in the order of the words that ask for them
  (`exists_askings`). -/
  requests : List Request
  /-- It holds an element. -/
  hasElement : Bool
deriving DecidableEq, Repr

namespace Program

/-- The comments in front of the code of `source`. -/
def commentsOf (source : List Char) : List String :=
  (Trivia.ofText (Cursor.front source).rest).comments.reverse.map String.ofList

/-- How deep the phrases of `source` may be nested: each token leads into a few of them at most. -/
def depth (source : List Char) : Nat := 16 * source.length + 64

/-- The statements of `source`, up to its end or to a token that no source may hold. -/
def statements (source : List Char) : Parser Unit :=
  Parser.many do
    if ← Parser.atEnd then return false
    discard (Grammar.reader (depth source) (.statement false))
    return true

/-- What the source file `text` says; nothing if it cannot be read. -/
def read (text : String) : Option Program :=
  let source := text.toList
  ((statements source).run {} (Cursor.ofText source)).map fun (_, cursor) =>
    { comments := commentsOf source
      requests := cursor.requests.reverse
      hasElement := cursor.hasElement }

/-- **What a source file asks for** stands in it, one asking `Before` the other. -/
theorem exists_askings {text : String} {program : Program} (h : read text = some program) :
    ∃ askings : List Asking, program.requests = askings.map (·.request) ∧
      (∀ asking ∈ askings, asking.StandsIn text.toList) ∧ askings.Pairwise Asking.Before := by
  simp only [read, Option.map_eq_some_iff] at h
  obtain ⟨⟨answer, cursor⟩, hrun, rfl⟩ := h
  obtain ⟨since, hsound, -⟩ :=
    (statements text.toList).leads hrun _ [] (Cursor.ofText_sound text.toList)
  rw [List.append_nil] at hsound
  refine ⟨since.reverse, ?_, fun asking ha => hsound.stand asking (List.mem_reverse.1 ha),
    List.pairwise_reverse.2 hsound.ordered⟩
  simp only [hsound.requests, List.map_reverse]

end Program

end FlowMigration.Script
