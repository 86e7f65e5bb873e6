import FlowMigration.Script.Grammar.Signature

/-! # Types

* `Grammar.anyType`: every type.
* `Grammar.operandType`: a type without `|`, `&` and conditions.
* `Grammar.members`: the members of an interface.
-/

namespace FlowMigration.Script.Grammar

open Script.Parser

variable (read : Reader)

/-! ## Lookahead -/

/-- Whether the token is a number. -/
def seesNumber : Parser Bool := do
  match ← lexeme with
  | .number _ => return true
  | _ => return false

/-- Goes past the beginning of a parameter: its modifiers and its name or pattern. -/
def skipParameter : Parser Bool := do
  match ← lexeme with
  | .word word => if modifierWords.contains word then discard (modifiers false)
  | _ => pure ()
  if (← seesName) || (← sees "this") then
    next
    return true
  if ← seesAny ["[", "\x7b"] then
    binding read
    return true
  return false

/-- Whether the parenthesis that has been passed opens the parameters of a function type
(`skipParameter`). -/
def opensParameters : Parser Bool := do
  if ← seesAny [")", "..."] then return true
  unless ← skipParameter read do return false
  if ← seesAny [":", ",", "?", "="] then return true
  unless ← eat ")" do return false
  sees "=>"

/-- Whether a function type begins here. -/
def startsFunctionType : Parser Bool := do
  if ← seesAny ["<", "new"] then return true
  if ← sees "(" then return ← nextIs (opensParameters read)
  if ← sees "abstract" then return ← nextIs (sees "new")
  return false

/-- The punctuation that a type may begin with, for `startsType`. -/
def typeMarks : List String :=
  ["\x7b", "[", "<", "|", "&", "*", "?", "!", "...", "("]

/-- The `reserved` words that a type may begin with. -/
def typeWords : List String :=
  ["void", "null", "this", "typeof", "new", "true", "false", "function", "import"]

/-- Whether a type may begin here. -/
def startsType : Parser Bool := do
  match ← lexeme with
  | .text _ | .number _ | .template _ => return true
  | .mark "-" => nextIs seesNumber
  | .mark mark => return typeMarks.contains mark
  | .word word => return isName word || typeWords.contains word
  | _ => return false

/-! ## Members -/

/-- Whether a bracket opens a member that is named by a key of any text, an `indexMember`. -/
def opensIndex : Parser Bool :=
  nextIs do
    if ← seesAny ["...", "]"] then return true
    match ← lexeme with
    | .word word =>
      if modifierWords.contains word then
        next
        if ← seesName then return true
      else if isName word then next
      else return false
    | _ => return false
    if ← seesAny [":", ","] then return true
    unless ← eat "?" do return false
    seesAny [":", ",", "]"]

def indexKey : Parser Unit := do
  word
  expect ":"
  type read

/-- A member that is named by a key of any text, such as `[key: string]: T`. -/
def indexMember : Parser Unit := do
  expect "["
  delimited "]" (indexKey read)
  expect "]"
  expect ":"
  type read
  endMember

/-- The type of a function that is a member, such as `(x: T): U`. -/
def callMember : Parser Unit := do
  typeParameters read
  parameters read
  discard (returnType read)
  endMember

def member : Parser Unit := do
  if ← seesAny ["(", "<"] then return ← callMember read
  if (← sees "new") && (← nextIs (seesAny ["(", "<"])) then
    next
    return ← callMember read
  discard (modifiers false)
  if (← contextual "get") || (← contextual "set") then
    propertyName read
    return ← callMember read
  if (← sees "[") && (← opensIndex) then return ← indexMember read
  propertyName read
  discard (eat "?")
  if ← seesAny ["(", "<"] then callMember read
  else
    annotation read
    endMember

/-- The members of an object type or an interface. -/
def members : Parser Unit := do
  expect "\x7b"
  many do
    if ← sees "\x7d" then return false
    member read
    return true
  expect "\x7d"

/-- Goes past `readonly` or a sign in front of it. -/
def mappedReadonly : Parser Unit := do
  if ← seesAny ["+", "-"] then
    next
    expect "readonly"
  else discard (eat "readonly")

/-- Whether a brace opens a type that is made key by key, which `mapped` reads. -/
def opensMapped : Parser Bool :=
  nextIs do
    if ← seesAny ["+", "-"] then
      next
      return ← sees "readonly"
    discard (eat "readonly")
    unless ← eat "[" do return false
    name
    sees "in"

/-- A type that is made key by key, such as `{[K in T]: U}`. -/
def mapped : Parser Unit := do
  expect "\x7b"
  mappedReadonly
  expect "["
  word
  expect "in"
  type read
  if ← eat "as" then type read
  expect "]"
  if ← seesAny ["+", "-"] then
    next
    expect "?"
  else discard (eat "?")
  annotation read
  discard (eat ";")
  expect "\x7d"

/-! ## Simple types -/

/-- A name with a path, and its `typeArguments`. -/
def reference : Parser Unit := do
  word
  many do
    unless ← eat "." do return false
    word
    return true
  typeArguments read

/-- Whether a part of a tuple has a name, as in `[x: T]`. -/
def namesPart : Parser Bool :=
  foreseen do
    discard (eat "...")
    word
    discard (eat "?")
    sees ":"

def tuplePart : Parser Unit := do
  if ← namesPart then
    discard (eat "...")
    word
    discard (eat "?")
    expect ":"
  discard (eat "...")
  type read

/-- A type that another module exports, such as `import('m').T`. -/
def importType : Parser Unit := do
  expect "import"
  expect "("
  type read
  if ← eat "," then
    unless ← sees ")" do
      assignment read
      discard (eat ",")
  expect ")"
  many do
    unless ← eat "." do return false
    word
    return true
  typeArguments read

/-- The rest of a template whose pieces have something between them that `hole` reads. -/
def templateRest (hole : Parser Unit) : Parser Unit :=
  many do
    hole
    unless ← sees "\x7d" do fail
    reread .template
    match ← lexeme with
    | .template closed =>
      next
      return !closed
    | _ => fail

/-- A type that says something about an argument, behind `asserts`. -/
def assertion : Parser Unit := do
  next
  unless ← eat "this" do name
  if ← eat "is" then type read

def functionType : Parser Unit := do
  discard (eat "abstract")
  discard (eat "new")
  typeParameters read
  parameters read
  expect "=>"
  typeOrPredicate read

/-- Types that are the word `word`, or begin with it. -/
def wordType (word : String) : Parser Unit := do
  match word with
  | "this" =>
    next
    if (← sees "is") && !(← onNewLine) then
      next
      type read
  | "typeof" =>
    next
    if ← sees "import" then importType read else reference read
  | "import" => importType read
  | "asserts" =>
    if ← nextOnLine (do return (← seesName) || (← sees "this")) then assertion read
    else reference read
  | _ => reference read

/-- A type without operators: a word, a literal, a list of `members` or a type in brackets. -/
def simpleType : Parser Unit := do
  match ← lexeme with
  | .text _ => next
  | .number sound => if sound then next else fail
  | .template closed =>
    next
    unless closed do templateRest (type read)
  | .word word => wordType read word
  | .mark "?" =>
    next
    unless ← seesAny [",", "\x7d", ")", ">", "=", "|"] do type read
  | .mark "!" =>
    next
    discard (read .typeOperand)
  | .mark "-" =>
    next
    unless ← seesNumber do fail
    next
  | .mark "\x7b" => if ← opensMapped then mapped read else members read
  | .mark "[" =>
    next
    delimited "]" (tuplePart read)
    expect "]"
  | .mark "(" =>
    next
    within (fun context => { context with plainType := false }) (type read)
    expect ")"
  | _ => fail

/-! ## Operators -/

/-- What follows a type on the same line: brackets, and marks `!` and `?` that say whether it may be
null. -/
def typeSuffixes : Parser Unit :=
  many do
    if ← onNewLine then return false
    if ← eat "!" then return true
    if ← sees "?" then
      if ← nextIs startsType then return false
      next
      return true
    unless ← eat "[" do return false
    if ← startsType then type read
    expect "]"
    return true

/-- The bound of a type that is inferred, behind `extends`, unless it belongs to a condition. -/
def inferredBound : Parser Unit :=
  discard (attempt do
    expect "extends"
    within (fun context => { context with plainType := true }) (type read)
    if !(← context).plainType && (← sees "?") then fail)

/-- A type without `|`, `&` and conditions. -/
def operandType : Parser Shape := do
  if ← seesAny ["keyof", "unique", "readonly"] then
    next
    return ← read .typeOperand
  if ← eat "infer" then
    name
    inferredBound read
    return .other
  within (fun context => { context with plainType := false }) do
    simpleType read
    typeSuffixes read
  return .other

/-- Types with `sign` between them, which may also stand in front. -/
def joined (sign : String) (item : Parser Unit) : Parser Unit := do
  discard (eat sign)
  item
  many do
    unless ← eat sign do return false
    item
    return true

/-- Every type, conditions between `operandType`s included. -/
def anyType : Parser Shape := do
  if ← startsFunctionType read then
    functionType read
    return .other
  joined "|" (joined "&" (discard (operandType read)))
  if !(← context).plainType && !(← onNewLine) then
    if ← eat "extends" then
      within (fun context => { context with plainType := true }) (type read)
      expect "?"
      within (fun context => { context with plainType := false }) (type read)
      expect ":"
      within (fun context => { context with plainType := false }) (type read)
  return .other

end FlowMigration.Script.Grammar
