import FlowMigration.Script.Grammar.Signature

/-! # Bindings

* `Grammar.bindingTarget`: what a variable binds, a name or a pattern of names.
-/

namespace FlowMigration.Script.Grammar

open Script.Parser

variable (read : Reader)

/-- A part of a pattern, a `bindingTarget`, with the value that it has otherwise. -/
def bindingElement : Parser Unit := do
  binding read
  within (fun context => { context with allowIn := true }) (initializer read)

/-- A member of an object pattern: a name for itself, or a key and the `bindingElement` it is bound
to. -/
def bindingProperty : Parser Unit := do
  let short ← seesName
  propertyName read
  if short && !(← sees ":") then
    within (fun context => { context with allowIn := true }) (initializer read)
  else
    expect ":"
    bindingElement read

/-- What a variable binds, a name or a pattern of `bindingElement`s. -/
def bindingTarget : Parser Shape := do
  if ← eat "\x7b" then
    withRest "\x7d" (bindingProperty read) (bindingRest read)
    expect "\x7d"
    return .pattern
  else if ← eat "[" then
    withRest "]" (do unless ← sees "," do bindingElement read) (bindingRest read)
    expect "]"
    return .pattern
  else
    name
    return .place

end FlowMigration.Script.Grammar
