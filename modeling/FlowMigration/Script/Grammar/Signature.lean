import FlowMigration.Script.Grammar.Name

/-! # Signatures

The types around a name and the parameters of a function.

* `Grammar.annotation`, `Grammar.returnType`: types behind a colon.
* `Grammar.typeArguments`, `Grammar.typeParameters`: lists between `<` and `>`.
* `Grammar.parameters`.
-/

namespace FlowMigration.Script.Grammar

open Script.Parser

variable (read : Reader)

/-! ## Annotations -/

/-- A type behind `:`, if there is one. -/
def annotation : Parser Unit := do
  if ← eat ":" then type read

/-- What a function returns: a type, or what its answer says about a parameter, as `x is T` does. -/
def typeOrPredicate : Parser Unit := do
  discard (attempt do
    name
    if ← onNewLine then fail
    expect "is")
  type read

/-- The type of what a function returns, behind `:`. The answer says whether there is one. -/
def returnType : Parser Bool := do
  unless ← eat ":" do return false
  typeOrPredicate read
  return true

/-! ## Lists of types -/

/-- Whether a list of type arguments opens here; the token is then taken for `<` alone. -/
def opensAngle : Parser Bool := do
  unless ← seesAny ["<", "<<", "<<=", "<="] do return false
  reread .lessThan
  return true

/-- Type arguments, if there are any on the same line (`opensAngle`). -/
def typeArguments : Parser Unit := do
  if ← onNewLine then return
  if ← opensAngle then
    next
    delimited ">" (type read)
    expect ">"

def typeParameter : Parser Unit := do
  discard (modifiers true)
  name
  if ← eat "extends" then type read
  if ← eat "=" then type read

/-- Type parameters, if there are any, in `<` and `>`. -/
def typeParameters : Parser Unit := do
  if ← eat "<" then
    delimited ">" (typeParameter read)
    expect ">"

/-! ## Parameters -/

/-- Items with commas between them up to `close`, which stays; the last one may be a rest. -/
def withRest (close : String) (item rest : Parser Unit) : Parser Unit :=
  discard (fold close false fun closed => do
    if closed then fail
    if ← eat "..." then
      rest
      return true
    item
    return false)

/-- What is bound, its type and the value that it has otherwise: what follows a `bindingTarget`. -/
def bindingRest : Parser Unit := do
  binding read
  discard (eat "?")
  annotation read
  within (fun context => { context with allowIn := true }) (initializer read)

def parameter : Parser Unit := do
  decorators read
  discard (modifiers false)
  bindingRest read

/-- The parameters of a function in their parentheses; the first one may be the type of `this`. -/
def parameters : Parser Unit := do
  expect "("
  if ← eat "this" then
    annotation read
    unless ← sees ")" do expect ","
  withRest ")" (parameter read) (bindingRest read)
  expect ")"

end FlowMigration.Script.Grammar
