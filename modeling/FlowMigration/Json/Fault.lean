import FlowMigration.Json.Printer

/-! # Faults of JSON texts

What can be wrong with a JSON text, or with a value that should have a certain form, and where in
the text it was noticed.

* `Mismatch`: a value has not the form that is asked for.
* `JsonFault`: a cause, and what was left to read.
* `JsonFault.describe`: the cause with its line and column.
-/

namespace FlowMigration

/-- A value where another one was expected, as a `Mismatch` names it. -/
inductive Found where
  | null
  | bool (value : Bool)
  | number (value : JsonNumber)
  | string (text : String)
  | sequence
  | map
deriving DecidableEq, Repr

namespace Found

def ofJson : Json → Found
  | .null => .null
  | .bool b => .bool b
  | .number n => .number n
  | .string s => .string s
  | .array _ => .sequence
  | .object _ => .map

def text : Found → String
  | .null => "null"
  | .bool true => "boolean `true`"
  | .bool false => "boolean `false`"
  | .number (.double bits) =>
    "floating point `" ++ String.ofList (JsonNumber.doubleText bits) ++ "`"
  | .number n => "integer `" ++ String.ofList n.text ++ "`"
  | .string s => "string " ++ Text.quoted s
  | .sequence => "sequence"
  | .map => "map"

end Found

/-- A value has not the form that is asked for, whether found while reading a text or a `Json`. -/
inductive Mismatch where
  | invalidType (found : Found) (expected : String)
  | duplicateField (name : String)
  | missingField (name : String)
  | invalidLength (length : Nat) (expected : String)
deriving DecidableEq, Repr

def Mismatch.message : Mismatch → String
  | .invalidType found expected => "invalid type: " ++ found.text ++ ", expected " ++ expected
  | .duplicateField name => "duplicate field `" ++ name ++ "`"
  | .missingField name => "missing field `" ++ name ++ "`"
  | .invalidLength length expected =>
    "invalid length " ++ toString length ++ ", expected " ++ expected

/-- Why a text could not be read by a `JsonReader`. -/
inductive JsonCause where
  | endInValue
  | endInList
  | endInObject
  | endInString
  | expectedValue
  | expectedWord
  | expectedColon
  | expectedListEnd
  | expectedObjectEnd
  | keyNotString
  | trailingComma
  | trailingCharacters
  | invalidNumber
  | numberOutOfRange
  | invalidEscape
  | loneSurrogate
  | endOfHexEscape
  | controlCharacter
  | tooDeep
  | mismatch (m : Mismatch)
deriving DecidableEq, Repr

def JsonCause.message : JsonCause → String
  | .endInValue => "EOF while parsing a value"
  | .endInList => "EOF while parsing a list"
  | .endInObject => "EOF while parsing an object"
  | .endInString => "EOF while parsing a string"
  | .expectedValue => "expected value"
  | .expectedWord => "expected ident"
  | .expectedColon => "expected `:`"
  | .expectedListEnd => "expected `,` or `]`"
  | .expectedObjectEnd => "expected `,` or `\x7d`"
  | .keyNotString => "key must be a string"
  | .trailingComma => "trailing comma"
  | .trailingCharacters => "trailing characters"
  | .invalidNumber => "invalid number"
  | .numberOutOfRange => "number out of range"
  | .invalidEscape => "invalid escape"
  | .loneSurrogate => "lone leading surrogate in hex escape"
  | .endOfHexEscape => "unexpected end of hex escape"
  | .controlCharacter =>
    "control character (\\u0000-\\u001F) found while parsing a string"
  | .tooDeep => "recursion limit exceeded"
  | .mismatch m => m.message

/-- A `cause`, what was left to read when it was noticed, and how many bytes of that count as
read. -/
structure JsonFault where
  cause : JsonCause
  rest : List Char
  ahead : Nat := 0
deriving DecidableEq, Repr

namespace JsonFault

/-- The fault `cause` at the next character of `rest`. -/
def next (cause : JsonCause) (rest : List Char) : JsonFault := ⟨cause, rest, 1⟩

/-- The fault `cause` behind what has been read, in front of `rest`. -/
def here (cause : JsonCause) (rest : List Char) : JsonFault := ⟨cause, rest, 0⟩

def byteLength (cs : List Char) : Nat := cs.foldl (fun n c => n + c.utf8Size) 0

/-- The line and the column, in bytes, after the first `index` bytes of a text. -/
def lineColumn (line column : Nat) : Nat → List Char → Nat × Nat
  | index, [] => (line, column + index)
  | index, c :: rest =>
    if index < c.utf8Size then (line, column + index)
    else if c = '\n' then lineColumn (line + 1) 0 (index - 1) rest
    else lineColumn line (column + c.utf8Size) (index - c.utf8Size) rest

/-- The line and the column of `fault` in `text`, by `lineColumn`. -/
def position (text : List Char) (fault : JsonFault) : Nat × Nat :=
  let total := byteLength text
  lineColumn 1 0 (min total (total - byteLength fault.rest + fault.ahead)) text

/-- The words for `fault` in `text`: its cause and its `position`. -/
def describe (text : String) (fault : JsonFault) : String :=
  let (line, column) := fault.position text.toList
  fault.cause.message ++ " at line " ++ toString line ++ " column " ++ toString column

end JsonFault

end FlowMigration
