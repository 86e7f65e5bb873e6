import FlowMigration.Text.Category

/-! # Text patterns

Patterns for pieces of text. A pattern may match at a place in several ways, which are tried in an
order: the left side of a choice before the right one, a greedy repetition from its longest run
down, a lazy one from its shortest run up.

* `Pattern.run`: the first way to match that a test on the rest of the text accepts.
* `Pattern.findAll`: the matches of a text from left to right, none inside another.
-/

namespace FlowMigration.Text

/-- A place in a text: the character `before` it, the `offset`, and those behind it. -/
structure Place where
  before : Option Char := none
  offset : Nat := 0
  rest : List Char
deriving DecidableEq, Repr

/-- The place behind the next character. -/
def Place.advance (place : Place) : Place :=
  match place.rest with
  | [] => place
  | c :: rest => ⟨some c, place.offset + 1, rest⟩

/-- How far a match has come, and what it has captured: from where on, and which characters. -/
structure Match where
  place : Place
  captured : Option (Nat × List Char) := none
deriving DecidableEq, Repr

inductive Pattern where
  /-- One character of a class, which `test` holds for. -/
  | one (test : Char → Bool)
  /-- A run of characters of a class. -/
  | many (greedy : Bool) (test : Char → Bool)
  | seq (first second : Pattern)
  | alt (first second : Pattern)
  /-- The pattern if it matches, nothing otherwise. -/
  | optional (pattern : Pattern)
  /-- What the pattern matches is captured. -/
  | capture (pattern : Pattern)
  /-- The start of a line. -/
  | lineStart
  /-- The start or the end of a word. -/
  | wordEdge

namespace Pattern

/-- The runs of a class from a place on, each given to `next` until one is accepted. -/
def runMany {α : Type} (greedy : Bool) (test : Char → Bool) (next : Place → Option α)
    (before : Option Char) (offset : Nat) : List Char → Option α
  | [] => next ⟨before, offset, []⟩
  | c :: rest =>
    if test c then
      if greedy then
        match runMany greedy test next (some c) (offset + 1) rest with
        | some found => some found
        | none => next ⟨before, offset, c :: rest⟩
      else
        match next ⟨before, offset, c :: rest⟩ with
        | some found => some found
        | none => runMany greedy test next (some c) (offset + 1) rest
    else next ⟨before, offset, c :: rest⟩

def isWord (c : Option Char) : Bool := c.any isWordPart

/-- The first way to match from `m` on that `next` accepts. -/
def run {α : Type} : Pattern → (Match → Option α) → Match → Option α
  | .one test, next, m =>
    match m.place.rest with
    | c :: _ => if test c then next { m with place := m.place.advance } else none
    | [] => none
  | .many greedy test, next, m =>
    runMany greedy test (fun place => next { m with place }) m.place.before m.place.offset
      m.place.rest
  | .seq first second, next, m => first.run (second.run next) m
  | .alt first second, next, m =>
    match first.run next m with
    | some found => some found
    | none => second.run next m
  | .optional pattern, next, m =>
    match pattern.run next m with
    | some found => some found
    | none => next m
  | .capture pattern, next, m =>
    pattern.run (fun done =>
      next { done with
        captured := some (m.place.offset, m.place.rest.take (done.place.offset - m.place.offset)) })
      m
  | .lineStart, next, m =>
    if m.place.before = none ∨ m.place.before = some '\n' then next m else none
  | .wordEdge, next, m =>
    if isWord m.place.before != isWord m.place.rest.head? then next m else none

/-- The first way in which `pattern` matches at `place`. -/
def matchAt (pattern : Pattern) (place : Place) : Option Match := pattern.run some ⟨place, none⟩

/-- The matches that begin at `from_` or later, from left to right; each one begins where the one
before it has ended or later. -/
def findFrom (pattern : Pattern) (from_ : Nat) (before : Option Char) (offset : Nat) :
    List Char → List Match
  | [] => if offset < from_ then [] else (pattern.matchAt ⟨before, offset, []⟩).toList
  | c :: rest =>
    if offset < from_ then findFrom pattern from_ (some c) (offset + 1) rest
    else
      match pattern.matchAt ⟨before, offset, c :: rest⟩ with
      | some m => m :: findFrom pattern m.place.offset (some c) (offset + 1) rest
      | none => findFrom pattern from_ (some c) (offset + 1) rest

/-- The matches of `pattern` in `text` from left to right. -/
def findAll (pattern : Pattern) (text : List Char) : List Match := findFrom pattern 0 none 0 text

/-- Whether `pattern` matches anywhere in `text`. -/
def occursIn (pattern : Pattern) (text : List Char) : Bool := !(pattern.findAll text).isEmpty

/-! ## Building patterns -/

/-- Patterns one after the other, by `Pattern.seq`. -/
def sequence : List Pattern → Pattern
  | [] => .many false fun _ => false
  | [p] => p
  | p :: more => .seq p (sequence more)

/-- The fixed `text`, character by character. -/
def word (text : String) : Pattern := sequence (text.toList.map fun c => .one (· == c))

/-- A run of at least one character of the class `test`. -/
def some1 (greedy : Bool) (test : Char → Bool) : Pattern := .seq (.one test) (.many greedy test)

def blanks : Pattern := .many true isBlank

def blanks1 : Pattern := some1 true isBlank

end Pattern

end FlowMigration.Text
