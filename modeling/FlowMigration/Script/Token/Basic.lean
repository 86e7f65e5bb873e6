/-! # Tokens of a source file

* `Input`: a place in a text, and what follows it.
* `Lexeme`: what a token is.
* `Reading`: what stands at the front of a text, and how far it goes.
* `Token`: a reading at its place.
-/

namespace FlowMigration.Script

/-- A place in a text: how many characters are in front of it, its `offset`, and those behind it. -/
structure Input where
  offset : Nat
  rest : List Char
deriving DecidableEq, Repr

namespace Input

/-- The place `n` characters on. -/
def skip (input : Input) (n : Nat) : Input := ⟨input.offset + n, input.rest.drop n⟩

/-- Whether the place lies in `source`. -/
def InText (source : List Char) (input : Input) : Prop := input.rest = source.drop input.offset

theorem InText.skip {source : List Char} {input : Input} (h : input.InText source) (n : Nat) :
    (input.skip n).InText source := by
  have h : input.rest = source.drop input.offset := h
  simp only [InText, Input.skip, h, List.drop_drop]

end Input

inductive Lexeme where
  /-- An identifier or a keyword, its escapes resolved. -/
  | word (name : String)
  /-- A name that belongs to a class, such as `#size`. -/
  | privateName
  /-- Punctuation. -/
  | mark (text : String)
  /-- A number; `sound` says whether it has a value. -/
  | number (sound : Bool)
  /-- A text between quotes, its escapes resolved. -/
  | text (value : String)
  /-- A piece of a template; `closed` says whether the template ends with it. -/
  | template (closed : Bool)
  | regex
  /-- Text between tags. -/
  | elementText
  /-- A text between quotes inside a tag. -/
  | elementString
  /-- Nothing that a source file may hold. -/
  | broken
  /-- The end of the source. -/
  | fin
deriving DecidableEq, Repr

/-- Whether `lexeme` is the word or the punctuation `text`. -/
def Lexeme.is (lexeme : Lexeme) (text : String) : Bool :=
  match lexeme with
  | .word name => name == text
  | .mark sign => sign == text
  | _ => false

/-- What stands at the front of a text: a `lexeme` and how it stands there. -/
structure Reading where
  lexeme : Lexeme
  /-- How many characters it takes up. -/
  length : Nat
  /-- Something about it is wrong, though it may go on. -/
  faulty : Bool := false
deriving DecidableEq, Repr

structure Token extends Reading where
  start : Input
  /-- A line ends in front of it. -/
  newline : Bool
deriving DecidableEq, Repr

/-- The place behind `token`. -/
def Token.behind (token : Token) : Input := token.start.skip token.length

end FlowMigration.Script
