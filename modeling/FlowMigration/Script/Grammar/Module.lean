import FlowMigration.Script.Grammar.Expression

/-! # Imports and exports

The specifiers of the modules that they name are recorded.

* `Grammar.importDeclaration`
* `Grammar.exportedNames`: names of this module, or of another one that are handed on.
-/

namespace FlowMigration.Script.Grammar

open Script.Parser

variable (read : Reader)

/-! ## Modules -/

/-- An entry that says more about a module: a key, `:` and a text. -/
def moduleAttribute : Parser Unit := do
  unless ← seesText do
    unless ← seesWord do fail
  next
  expect ":"
  text

/-- What is said about a module behind its specifier, a list of `moduleAttribute`s. -/
def moduleAttributes : Parser Unit := do
  if (← sees "with") || ((← sees "assert") && !(← onNewLine)) then
    next
    expect "\x7b"
    delimited "\x7d" moduleAttribute
    expect "\x7d"

/-! ## Lists of names -/

/-- A name as a module exports it, which may be a text, as in `export { x as 'y' }`. -/
def exportedName : Parser Unit := do
  unless ← seesText do
    unless ← seesWord do fail
  next

def seesExportedName : Parser Bool := do
  return (← seesText) || (← seesWord)

/-- A new name behind `as`, if there is one. -/
def renamed : Parser Unit := do
  if ← eat "as" then exportedName

/-- A name in a list, which may be marked as a type and may get a new name. The words `type` and
`as` can also be names themselves. -/
def specifier : Parser Unit := do
  if ← eat "type" then
    if ← eat "as" then
      if ← eat "as" then
        if ← seesExportedName then exportedName
      else if ← seesExportedName then exportedName
    else if ← seesExportedName then
      exportedName
      renamed
  else
    exportedName
    renamed

def specifiers : Parser Unit := do
  expect "\x7b"
  delimited "\x7d" specifier
  expect "\x7d"

/-! ## Imports -/

/-- The names of an import besides a default one: a list of `specifier`s or `* as` a name. -/
def importedNames : Parser Unit := do
  if ← eat "*" then
    expect "as"
    name
  else specifiers

/-- A name for something that is imported otherwise, by a call or from a namespace: `import x =
…`. -/
def importAlias : Parser Unit := do
  expect "="
  if (← sees "require") && (← nextIs (sees "(")) then
    next
    next
    text
    expect ")"
  else
    word
    many do
      unless ← eat "." do return false
      word
      return true
  endStatement

/-- Whether `type` behind `import` says that types are imported, and is no name itself. -/
def importsTypes : Parser Bool := do
  unless ← sees "type" do return false
  nextIs do
    if ← sees "from" then return ← nextIs (seesAny ["from", "="])
    return (← seesName) || (← seesAny ["*", "\x7b"])

/-- Whether `word` behind `import` says when the module is run, and is no name itself. -/
def importsPhase (word : String) : Parser Bool := do
  unless ← sees word do return false
  nextIs do
    if ← sees "from" then return !(← nextIs seesText)
    return !(← seesAny [",", "="])

/-- An import from behind its keyword up to the leader in front of the module's name; no `Frame` if
none is named. -/
def importHead : Parser (Option Frame) := do
  if ← importsTypes then next
  else if ← importsPhase "defer" then
    if ← nextIs seesText then return some .importDefer
    next
  else if ← importsPhase "source" then
    if ← nextIs seesText then return some .importSource
    next
  if ← seesName then
    next
    if ← sees "=" then return none
    if ← eat "," then importedNames
  else importedNames
  return some .importFrom

def importDeclaration : Parser Unit := do
  if ← nextIs seesText then namingAtOnce .importAlone
  else if (← naming id importHead).isNone then return ← importAlias
  moduleAttributes
  endStatement

/-! ## Exports -/

/-- Whether `export` exports names, which another module may hand on. -/
def exportsNames : Parser Bool :=
  nextIs do
    if ← sees "type" then return ← nextIs (seesAny ["*", "\x7b"])
    seesAny ["*", "\x7b"]

/-- An `export` of names from behind its keyword up to the leader in front of the module's name, if
one is named. -/
def exportHead : Parser (Option Unit) := do
  discard (eat "type")
  if ← eat "*" then
    renamed
    return some ()
  specifiers
  if (← sees "from") && (← nextIs seesText) then return some ()
  discard (eat "from")
  return none

/-- An `export` of names: a list of them or all that another module exports. -/
def exportedNames : Parser Unit := do
  if (← naming (fun _ => .exportFrom) exportHead).isSome then moduleAttributes
  endStatement

end FlowMigration.Script.Grammar
