import FlowMigration.Script.Grammar.Binding
import FlowMigration.Script.Grammar.Module

/-! # Statements and declarations

* `Grammar.declaration`: what may stand behind modifiers.
* `Grammar.exportDeclaration`
* `Grammar.statement`
-/

namespace FlowMigration.Script.Grammar

open Script.Parser

variable (read : Reader)

/-! ## Variables -/

/-- A variable with its type and its value, behind `var`, `let` or `const`. -/
def declarator : Parser Unit := do
  binding read
  discard (eat "!")
  annotation read
  initializer read

def declarators : Parser Unit := do
  declarator read
  many do
    unless ← eat "," do return false
    declarator read
    return true

/-- Variables behind the word that declares them, each a `declarator`. -/
def variableStatement : Parser Unit := do
  next
  declarators read
  endStatement

/-! ## Types and namespaces -/

def typeAlias : Parser Unit := do
  next
  name
  typeParameters read
  expect "="
  type read
  endStatement

def interface : Parser Unit := do
  next
  name
  typeParameters read
  many do
    unless (← eat "extends") || (← eat "implements") do return false
    ancestors read
    return true
  members read

/-- The name of a member of an `enum`. -/
def enumName : Parser Unit := do
  match ← lexeme with
  | .word _ | .text _ => next
  | .mark "[" =>
    next
    match ← lexeme with
    | .text _ | .template true => next
    | _ => fail
    expect "]"
  | _ => fail

def enumeration : Parser Unit := do
  next
  name
  expect "\x7b"
  delimited "\x7d" do
    enumName
    inBrackets (initializer read)
  expect "\x7d"

/-- A `namespace` with a path, or the declaration of a `module`. -/
def namespaceDeclaration : Parser Unit := do
  if ← eat "global" then block read
  else
    next
    if ← seesText then
      next
      if ← sees "\x7b" then block read else endStatement
    else
      name
      many do
        unless ← eat "." do return false
        word
        return true
      block read

/-! ## Declarations -/

/-- Whether a declaration goes on from here, after words that may also be modifiers. -/
def declares : Parser Bool :=
  iterate (fun () => do
    let .word first ← lexeme | return .inr false
    match first with
    | "var" | "let" | "const" | "function" | "class" | "enum" => return .inr true
    | "interface" | "type" => return .inr (← nextOnLine seesName)
    | "module" | "namespace" =>
      return .inr (← nextOnLine (do return (← seesName) || (← seesText)))
    | "global" => return .inr (← nextIs (do return (← seesName) || (← seesAny ["\x7b", "export"])))
    | "import" => return .inr (← nextIs (do
        return (← seesText) || (← seesWord) || (← seesAny ["*", "\x7b"])))
    | "export" =>
      next
      let marks ← if ← sees "type" then nextIs (seesAny ["=", "*", "\x7b", "default", "as", "@"])
        else seesAny ["=", "*", "\x7b", "default", "as", "@"]
      return if marks then .inr true else .inl ()
    | "static" =>
      next
      return .inl ()
    | "abstract" | "accessor" | "async" | "declare" | "private" | "protected" | "public"
    | "readonly" =>
      next
      return if ← onNewLine then .inr false else .inl ()
    | _ => return .inr false) ()

/-- The words that only may begin a declaration, for `declares`. -/
def declarationWords : List String :=
  ["interface", "type", "module", "namespace", "declare", "enum", "private", "protected", "public",
    "abstract", "accessor", "static", "readonly", "global"]

/-- A declaration behind its `modifiers`. -/
def declared : Parser Unit := do
  let .word first ← lexeme | fail
  match first with
  | "var" | "let" | "const" => variableStatement read
  | "function" => function read
  | "class" => classRest read
  | "interface" => interface read
  | "type" => typeAlias read
  | "enum" => enumeration read
  | "module" | "namespace" | "global" => namespaceDeclaration read
  | "import" =>
    next
    if (← sees "type") && (← nextIs seesName) then next
    name
    importAlias
  | _ => fail

/-- A declaration with its `modifiers`. -/
def declaration : Parser Unit := do
  if ← modifiers false then
    if ← sees "function" then return ← functionDeclared
  declared read
where
  /-- A function whose modifiers said that it is asynchronous. -/
  functionDeclared : Parser Unit := do
    next
    let generator ← eat "*"
    if ← seesName then next
    functionRest read true generator false

/-! ## Exports -/

/-- What a module exports without a name, behind `default`. -/
def exportedDefault : Parser Unit := do
  decorators read
  if ← sees "class" then classRest read
  else if (← sees "interface") && (← nextOnLine seesName) then interface read
  else if (← sees "abstract") && (← nextOnLine (sees "class")) then
    next
    classRest read
  else if (← sees "function") || (← startsAsyncFunction) then function read
  else
    assignment read
    endStatement

def exportDeclaration : Parser Unit := do
  if ← exportsNames then return ← exportedNames
  expect "export"
  if ← eat "=" then
    assignment read
    endStatement
  else if (← sees "as") && (← nextIs (sees "namespace")) then
    next
    next
    name
    endStatement
  else if ← eat "default" then exportedDefault read
  else
    decorators read
    declaration read

/-! ## Control -/

/-- A statement that belongs to another one, as to an `if`. -/
def dependent : Parser Unit := discard (read (.statement true))

/-- The conditions of a loop that counts, up to its statement: what stands between two `;` and
behind them. -/
def loopConditions : Parser Unit := do
  expect ";"
  unless ← sees ";" do discard (expression read)
  expect ";"
  unless ← sees ")" do discard (expression read)
  expect ")"

/-- What a loop runs over, behind `of` or `in`, or its `loopConditions`. -/
def loopRest : Parser Unit := do
  if ← eat "of" then
    assignment read
    expect ")"
  else if ← eat "in" then
    discard (expression read)
    expect ")"
  else loopConditions read

/-- Whether the variables of a loop are declared here. -/
def declaresLoop : Parser Bool := do
  if ← seesAny ["var", "const"] then return true
  unless ← sees "let" do return false
  nextIs do return (← seesName) || (← seesAny ["[", "\x7b"])

def forStatement : Parser Unit := do
  next
  discard (eat "await")
  expect "("
  if ← sees ";" then loopConditions read
  else if ← declaresLoop then
    next
    within (fun context => { context with allowIn := false }) (declarators read)
    loopRest read
  else
    let shape ← within (fun context => { context with allowIn := false }) (expression read)
    if (← seesAny ["of", "in"]) && !shape.isTarget then fail
    loopRest read
  dependent read

def ifStatement : Parser Unit := do
  next
  condition read
  dependent read
  if ← eat "else" then dependent read

def doStatement : Parser Unit := do
  next
  dependent read
  expect "while"
  condition read
  discard (eat ";")

/-- A jump to the end or the start of a statement that a name may tell: `break` or `continue`. -/
def jump : Parser Unit := do
  next
  unless ← mayEnd do name
  endStatement

def returnStatement : Parser Unit := do
  next
  unless ← mayEnd do discard (expression read)
  endStatement

def throwStatement : Parser Unit := do
  next
  discard (expression read)
  endStatement

def switchCase : Parser Unit := do
  if ← eat "case" then discard (expression read) else expect "default"
  expect ":"
  many do
    if (← seesAny ["case", "default", "\x7d"]) || (← atEnd) then return false
    discard (read (.statement false))
    return true

def switchStatement : Parser Unit := do
  next
  condition read
  expect "\x7b"
  many do
    if ← sees "\x7d" then return false
    switchCase read
    return true
  expect "\x7d"

def tryStatement : Parser Unit := do
  next
  block read
  if ← eat "catch" then
    if ← eat "(" then
      binding read
      annotation read
      expect ")"
    block read
  if ← eat "finally" then block read

/-! ## Statements -/

/-- An `expression`, or a name that labels the statement behind it. -/
def expressionStatement : Parser Unit := do
  let shape ← expression read
  if let .name _ := shape then
    if ← eat ":" then return ← dependent read
  endStatement

/-- Signs that show that `let` in front of them is a name. -/
def nameSigns : List String := binarySigns ++ ["=", ".", "(", ";"]

/-- Whether `let` is a name here. -/
def letIsName (alone : Bool) : Parser Bool :=
  nextIs do
    if ← seesAny (nameSigns.erase "[") then return true
    if ← seesAny ["in", "instanceof", "as", "satisfies"] then return true
    return alone && !(← sees "[")

/-- Whether a variable that is disposed of at the end of its block is declared here, with
`using`. -/
def declaresDisposed : Parser Bool := do
  if ← sees "using" then return ← nextOnLine seesName
  unless ← sees "await" do return false
  nextOnLine do
    unless ← sees "using" do return false
    nextOnLine seesName

def decorated : Parser Unit := do
  decorators read
  if ← sees "export" then exportDeclaration read
  else
    discard (modifiers false)
    classRest read

/-- A statement that begins with the word `first`. -/
def wordStatement (alone : Bool) (first : String) : Parser Unit := do
  match first with
  | "if" => ifStatement read
  | "do" => doStatement read
  | "while" | "with" =>
    next
    condition read
    dependent read
  | "for" => forStatement read
  | "break" | "continue" => jump
  | "switch" => switchStatement read
  | "throw" => throwStatement read
  | "try" => tryStatement read
  | "return" => returnStatement read
  | "debugger" =>
    next
    endStatement
  | "class" => classRest read
  | "function" => function read
  | "export" => exportDeclaration read
  | "import" =>
    if ← nextIs (seesAny [".", "("]) then expressionStatement read else importDeclaration
  | "var" => variableStatement read
  | "const" =>
    if ← nextIs (sees "enum") then
      next
      enumeration read
    else variableStatement read
  | "let" => if ← letIsName alone then expressionStatement read else variableStatement read
  | first =>
    if ← startsAsyncFunction then function read
    else if ← declaresDisposed then
      discard (eat "await")
      variableStatement read
    else if declarationWords.contains first && (← foreseen declares) then declaration read
    else expressionStatement read

/-- A statement; `alone` says that it is no member of a list of statements. -/
def statement (alone : Bool) : Parser Shape := do
  match ← lexeme with
  | .mark "\x7b" => block read
  | .mark ";" => next
  | .mark "@" => decorated read
  | .word first => wordStatement read alone first
  | _ => expressionStatement read
  return .other

end FlowMigration.Script.Grammar
