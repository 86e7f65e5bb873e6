import FlowMigration.Script.Grammar.Type

/-! # Functions and classes

* `Grammar.functionRest`, `Grammar.function`: functions of every kind but arrows.
* `Grammar.classRest`: what follows the word `class`.
-/

namespace FlowMigration.Script.Grammar

open Script.Parser

variable (read : Reader)

/-! ## Functions -/

/-- Statements up to a closing brace or the end. -/
def statements : Parser Unit :=
  many do
    if (← sees "\x7d") || (← atEnd) then return false
    discard (read (.statement false))
    return true

def block : Parser Unit := do
  expect "\x7b"
  statements read
  expect "\x7d"

def functionBody : Parser Unit := inBrackets (block read)

/-- The `parameters` of a function and what follows them. A body may be left out where only the
signature matters (`needsBody`). -/
def functionRest (isAsync generator needsBody : Bool) : Parser Unit :=
  inFunction isAsync generator do
    typeParameters read
    parameters read
    discard (returnType read)
    if (← sees "\x7b") || needsBody then functionBody read else endStatement

/-- A function with the word `function`; a declaration has a name before its parameters as a
rule. -/
def function : Parser Unit := do
  let isAsync ← eat "async"
  expect "function"
  let generator ← eat "*"
  if ← seesName then next
  functionRest read isAsync generator false

/-! ## Classes -/

/-- The value of a field, behind its `=`. -/
def fieldValue : Parser Unit := inFunction false false (initializer read)

/-- A field or a method, which is asynchronous if `isAsync`. -/
def propertyOrMethod (isAsync : Bool) : Parser Unit := do
  let generator ← eat "*"
  propertyName read
  discard (eat "?")
  if generator || (← seesAny ["(", "<"]) then functionRest read isAsync generator false
  else
    discard (eat "!")
    annotation read
    fieldValue read
    endStatement

/-- A getter or a setter behind its word `get` or `set`. -/
def accessor (needsBody : Bool) : Parser Unit := do
  propertyName read
  functionRest read false false needsBody

def classMember : Parser Unit := do
  decorators read
  let isAsync ← modifiers true
  if (← sees "static") && (← nextIs (sees "\x7b")) then
    next
    inFunction true false (block read)
  else if (← contextual "get") || (← contextual "set") then accessor read false
  else if (← sees "[") && (← opensIndex) then indexMember read
  else propertyOrMethod read isAsync

def classBody : Parser Unit := do
  expect "\x7b"
  many do
    if ← sees "\x7d" then return false
    unless ← eat ";" do classMember read
    return true
  expect "\x7d"

/-- What a class or an interface is built on, behind `extends` or `implements`. -/
def ancestors : Parser Unit := do
  let ancestor : Parser Unit := do
    discard (read .operand)
    typeArguments read
  ancestor
  many do
    unless ← eat "," do return false
    ancestor
    return true

/-- What follows the word `class`: a name, ancestors and members. -/
def classRest : Parser Unit := do
  expect "class"
  if (← seesName) && !(← sees "implements") then next
  typeParameters read
  many do
    unless (← eat "extends") || (← eat "implements") do return false
    ancestors read
    return true
  classBody read

end FlowMigration.Script.Grammar
