import FlowMigration.Json.Reader

/-! # Readers of known forms

Readers for values whose form is known in advance. A value of another form is a `Mismatch`, placed
behind it where it is a number, a word or a string, and in front of it otherwise.

* `Json.readText`: a string.
* `Json.readOptional`: a value or `null`.
* `Json.readTextDict`: an object of strings.
-/

namespace FlowMigration.Json

/-- The fault of a value where something else was `expected`. -/
def unexpected {α : Type} (expected : String) : JsonReader α := fun cs =>
  let mismatch (found : Found) (rest : List Char) : Except JsonFault (α × List Char) :=
    .error (.here (.mismatch (.invalidType found expected)) rest)
  match cs with
  | 'n' :: rest => do
    let ((), rest) ← readWord ['u', 'l', 'l'] rest
    mismatch .null rest
  | 't' :: rest => do
    let ((), rest) ← readWord ['r', 'u', 'e'] rest
    mismatch (.bool true) rest
  | 'f' :: rest => do
    let ((), rest) ← readWord ['a', 'l', 's', 'e'] rest
    mismatch (.bool false) rest
  | '-' :: rest => do
    let (n, rest) ← readNumber false rest
    mismatch (.number n) rest
  | '"' :: rest => do
    let (s, rest) ← readString rest
    mismatch (.string s) rest
  | '[' :: rest => mismatch .sequence ('[' :: rest)
  | '\x7b' :: rest => mismatch .map ('\x7b' :: rest)
  | c :: rest =>
    if c.isDigit then do
      let (n, rest) ← readNumber true (c :: rest)
      mismatch (.number n) rest
    else .error (.next .expectedValue (c :: rest))
  | [] => .error (.next .expectedValue [])

/-- Reads a string. -/
def readText : JsonReader String := fun cs =>
  match skipBlanks cs with
  | [] => .error (.next .endInValue [])
  | '"' :: rest => readString rest
  | rest => unexpected "a string" rest

/-- Reads a value, or `null` for nothing. -/
def readOptional {α : Type} (read : JsonReader α) : JsonReader (Option α) := fun cs =>
  match skipBlanks cs with
  | 'n' :: rest => do
    let ((), rest) ← readWord ['u', 'l', 'l'] rest
    .ok (none, rest)
  | rest => do
    let (value, rest) ← read rest
    .ok (some value, rest)

/-- Reads the members of an object of strings into a `Dict`, up to its closing brace. -/
def readTexts : Nat → Bool → Dict String → JsonReader (Dict String)
  | 0, _, _, cs => .error (.next .endInObject cs)
  | fuel + 1, first, dict, cs => do
    let (more, rest) ← nextKey first cs
    if more then
      let (key, rest) ← readString rest
      let ((), rest) ← readColon rest
      let (value, rest) ← readText rest
      readTexts fuel false (dict.insert key value) rest
    else .ok (dict, rest.drop 1)

/-- Reads an object of strings, by `readTexts`. -/
def readTextDict : JsonReader (Dict String) := fun cs =>
  match skipBlanks cs with
  | [] => .error (.next .endInValue [])
  | '\x7b' :: rest => readTexts (rest.length + 1) true {} rest
  | rest => unexpected "a map" rest

end FlowMigration.Json
