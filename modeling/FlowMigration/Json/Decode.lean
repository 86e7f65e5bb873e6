import FlowMigration.Json.Fault

/-! # Values of known forms

What a value stands for where its form is known in advance.

* `Json.asText`, `Json.asBool`, `Json.asOptional`, `Json.asTextList`: values of simple forms.
* `Json.asDict`: an object whose members all have one form.
* `Json.checkLength`: whether an array is short enough for the record that it stands for.
-/

namespace FlowMigration.Json

/-- The fault of `value`, which has not the form that is `expected`. -/
def mismatch {α : Type} (value : Json) (expected : String) : Except Mismatch α :=
  .error (.invalidType (Found.ofJson value) expected)

def asText : Json → Except Mismatch String
  | .string text => .ok text
  | value => value.mismatch "a string"

def asBool : Json → Except Mismatch Bool
  | .bool b => .ok b
  | value => value.mismatch "a boolean"

/-- A value, or `null` for nothing. -/
def asOptional {α : Type} (read : Json → Except Mismatch α) : Json → Except Mismatch (Option α)
  | .null => .ok none
  | value => (read value).map some

def asTextList : Json → Except Mismatch (List String)
  | .array items => items.mapM asText
  | value => value.mismatch "a sequence"

/-- An object whose members are read in the order of their keys, each by `read`. -/
def asDict {α : Type} (read : Json → Except Mismatch α) : Json → Except Mismatch (Dict α)
  | .object members =>
    (members.mapM fun m => (read m.2).map fun value => (m.1, value)).map Dict.ofList
  | value => value.mismatch "a map"

/-- The value of the member `key`, which may be missing. -/
def optionalMember {α : Type} (key : String) (read : Json → Except Mismatch α)
    (members : List (String × Json)) : Except Mismatch (Option α) :=
  match findMember? key members with
  | some value => (read value).map some
  | none => .ok none

/-- The value of the member `key` that has been looked for. -/
def requireMember {α : Type} (key : String) : Option α → Except Mismatch α
  | some value => .ok value
  | none => .error (.missingField key)

/-- The fault of an array that stands for a record of `count` items and has more. -/
def checkLength (count : Nat) (items : List Json) : Except Mismatch Unit :=
  if items.length ≤ count then .ok ()
  else .error (.invalidLength items.length "fewer elements in array")

end FlowMigration.Json
