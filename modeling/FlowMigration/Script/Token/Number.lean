import FlowMigration.Script.Token.Basic
import FlowMigration.Script.Token.Literal

/-! # Numbers

* `Number.ofText`: the number that a text begins with. Digits may be separated by single `_`.
-/

namespace FlowMigration.Script.Number

/-- A run of digits and how far it goes; a `_` that no digit follows ends it and is wrong. -/
def digitRun (isDigit : Char → Bool) : List Char → Nat × Bool
  | '_' :: c :: rest =>
    if isDigit c then
      let (length, faulty) := digitRun isDigit rest
      (length + 2, faulty)
    else (1, true)
  | ['_'] => (1, true)
  | c :: rest =>
    if isDigit c then
      let (length, faulty) := digitRun isDigit rest
      (length + 1, faulty)
    else (0, false)
  | [] => (0, false)

def isBinary (c : Char) : Bool := c == '0' || c == '1'

def isHex (c : Char) : Bool := (Escape.hexDigit? c).isSome

/-- What begins with a number and does not go on as one, after `length` characters. -/
def broken (length : Nat) : Reading := ⟨.broken, length, true⟩

/-- A number of this `length`, unless a digit or a name follows it in `text` at once. -/
def finish (text : List Char) (sound faulty : Bool) (length : Nat) : Reading :=
  match text.drop length with
  | c :: _ =>
    if c.isDigit || Text.isNameStart c then broken length else ⟨.number sound, length, faulty⟩
  | [] => ⟨.number sound, length, faulty⟩

/-- The part after the point, if there is one, and the exponent of a number whose first `length`
characters have been read. -/
def exponent (text : List Char) (faulty : Bool) (length : Nat) : Reading :=
  let digits (length : Nat) (rest : List Char) : Reading :=
    if rest.head?.any Char.isDigit then
      let (more, wrong) := digitRun Char.isDigit rest
      finish text true (faulty || wrong) (length + more)
    else finish text false true length
  match text.drop length with
  | 'e' :: '+' :: rest => digits (length + 2) rest
  | 'e' :: '-' :: rest => digits (length + 2) rest
  | 'E' :: '+' :: rest => digits (length + 2) rest
  | 'E' :: '-' :: rest => digits (length + 2) rest
  | 'e' :: rest => digits (length + 1) rest
  | 'E' :: rest => digits (length + 1) rest
  | _ => finish text true faulty length

/-- Digits after the point, of which there may be none, and an `exponent`. -/
def fraction (text : List Char) (faulty : Bool) (length : Nat) : Reading :=
  let (more, wrong) := digitRun Char.isDigit (text.drop length)
  exponent text (faulty || wrong) (length + more)

/-- The number to base 10 that `text` goes on with after its first digit. -/
def decimal (text : List Char) : Reading :=
  let (more, faulty) := digitRun Char.isDigit (text.drop 1)
  match text.drop (1 + more) with
  | '.' :: _ => fraction text faulty (2 + more)
  | 'n' :: _ => finish text true faulty (2 + more)
  | _ => exponent text faulty (1 + more)

/-- A number to another base, whose digits `isDigit` tells, after the letter that names the base. -/
def based (isDigit : Char → Bool) (text : List Char) : Reading :=
  let (more, faulty) := digitRun isDigit (text.drop 2)
  if faulty || !(text.drop 2).head?.any isDigit then broken (2 + more)
  else
    match text.drop (2 + more) with
    | 'n' :: _ => finish text true false (3 + more)
    | _ => finish text true false (2 + more)

/-- A number that begins with `0` and goes on with a digit: to base 8 unless an `8` or a `9` is
among its digits. -/
def leadingZero (text : List Char) : Reading :=
  let digits := text.takeWhile Char.isDigit
  if digits.all Escape.isOctal then finish text true false digits.length
  else
    match text.drop digits.length with
    | '.' :: _ => fraction text false (digits.length + 1)
    | 'e' :: _ => exponent text false digits.length
    | _ => finish text true false digits.length

/-- The number that `text` begins with; its first character is a digit, or a point before one. -/
def ofText (text : List Char) : Reading :=
  match text with
  | '.' :: _ => fraction text false 1
  | '0' :: c :: _ =>
    if c == 'b' || c == 'B' then based isBinary text
    else if c == 'o' || c == 'O' then based Escape.isOctal text
    else if c == 'x' || c == 'X' then based isHex text
    else if c.isDigit then leadingZero text
    else decimal text
  | _ => decimal text

end FlowMigration.Script.Number
