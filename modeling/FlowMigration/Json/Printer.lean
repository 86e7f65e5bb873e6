import FlowMigration.Decimal.Shortest
import FlowMigration.Json.Basic
import FlowMigration.Text.Quoted

/-! # JSON texts

How a value is written, over several lines with two spaces for each level.

* `JsonNumber.text`: a double has the fewest digits that read back, positional from `0.00001` up
  to sixteen digits before the point, with a signed exponent elsewhere.
* `Json.escape`: what stands between the quotes of a string.
* `Json.pretty`: the text of a value.
-/

namespace FlowMigration

/-! ## Numbers -/

namespace Decimal

/-- The exponent mark of a number in scientific form, with the exponent `e`. -/
def exponentText (e : Int) : List Char :=
  'e' :: (if e < 0 then '-' else '+') :: digitsOf e.natAbs

/-- A decimal as text. The point stands after the first `point` digits. -/
def text (d : Decimal) : List Char :=
  let digits := digitsOf d.digits
  let point := (digits.length : Int) + d.exponent
  if d.exponent ≥ 0 ∧ point ≤ 16 then
    digits ++ List.replicate d.exponent.toNat '0' ++ ['.', '0']
  else if 0 < point ∧ point ≤ 16 then
    digits.take point.toNat ++ '.' :: digits.drop point.toNat
  else if -5 < point ∧ point ≤ 0 then
    ['0', '.'] ++ List.replicate (-point).toNat '0' ++ digits
  else
    match digits with
    | [only] => only :: exponentText (point - 1)
    | first :: more => first :: '.' :: more ++ exponentText (point - 1)
    | [] => []

end Decimal

namespace JsonNumber

/-- The text of the finite double with these `bits`, its shortest `Decimal`. -/
def doubleText (bits : UInt64) : List Char :=
  let magnitude :=
    if Binary64.isZero bits then ['0', '.', '0']
    else
      match Decimal.shortest? (Binary64.interval bits) with
      | some d => d.text
      | none => []
  if Binary64.isNegative bits then '-' :: magnitude else magnitude

def text : JsonNumber → List Char
  | .natural n => Decimal.digitsOf n
  | .negative n => '-' :: Decimal.digitsOf n
  | .double bits => doubleText bits

end JsonNumber

/-! ## Strings -/

namespace Json

/-- The character `c` as it stands inside a string. -/
def escapeChar (c : Char) : List Char :=
  match c with
  | '"' => ['\\', '"']
  | '\\' => ['\\', '\\']
  | '\n' => ['\\', 'n']
  | '\r' => ['\\', 'r']
  | '\t' => ['\\', 't']
  | '\x08' => ['\\', 'b']
  | '\x0c' => ['\\', 'f']
  | c =>
    if c.toNat < 32 then
      ['\\', 'u', '0', '0', Text.hexDigit (c.toNat / 16), Text.hexDigit (c.toNat % 16)]
    else [c]

def escape (text : String) : List Char := text.toList.flatMap escapeChar

def stringText (text : String) : List Char := '"' :: escape text ++ ['"']

/-! ## Values -/

def indent (depth : Nat) : List Char := '\n' :: List.replicate (2 * depth) ' '

mutual

/-- The value over several lines; `depth` levels enclose it. -/
def prettyText (depth : Nat) : Json → List Char
  | .null => "null".toList
  | .bool true => "true".toList
  | .bool false => "false".toList
  | .number n => n.text
  | .string s => stringText s
  | .array [] => ['[', ']']
  | .array (item :: rest) => '[' :: prettyItems depth (item :: rest)
  | .object [] => ['\x7b', '\x7d']
  | .object (m :: rest) => '\x7b' :: prettyMembers depth (m :: rest)

/-- The items of an array, each on a line of its own at `depth`, and its closing bracket. -/
def prettyItems (depth : Nat) : List Json → List Char
  | [] => indent depth ++ [']']
  | [item] => indent (depth + 1) ++ prettyText (depth + 1) item ++ indent depth ++ [']']
  | item :: rest =>
    indent (depth + 1) ++ prettyText (depth + 1) item ++ ',' :: prettyItems depth rest

/-- The members of an object, each on a line of its own at `depth`, and its closing brace. -/
def prettyMembers (depth : Nat) : List (String × Json) → List Char
  | [] => indent depth ++ ['\x7d']
  | [m] => indent (depth + 1) ++ prettyMember depth m ++ indent depth ++ ['\x7d']
  | m :: rest => indent (depth + 1) ++ prettyMember depth m ++ ',' :: prettyMembers depth rest

def prettyMember (depth : Nat) : String × Json → List Char
  | (key, value) => stringText key ++ ':' :: ' ' :: prettyText (depth + 1) value

end

/-- The `value` over several lines, as files keep it. -/
def pretty (value : Json) : String := String.ofList (value.prettyText 0)

end Json

end FlowMigration
