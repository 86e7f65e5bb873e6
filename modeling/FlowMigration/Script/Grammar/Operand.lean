import FlowMigration.Script.Grammar.Function

/-! # Operands

Expressions without operators. Here calls that ask for a module are found.

* `Grammar.namesModule`: whether a call names a module.
* `Grammar.operand`.
-/

namespace FlowMigration.Script.Grammar

open Script.Parser

variable (read : Reader)

/-! ## Arguments -/

/-- Whether a call, whose parenthesis is the token, names a module: its first argument is nothing
but a text in quotes. -/
def namesModule : Parser Bool :=
  foreseen do
    expect "("
    text
    seesAny [",", ")"]

def argument : Parser Unit := do
  discard (eat "...")
  assignment read

/-- The arguments of a call, plain ones and those behind `...`. -/
def arguments : Parser Unit := do
  expect "("
  inBrackets (delimited ")" (argument read))
  expect ")"

/-! ## Lists and objects -/

/-- What is known of a list or an object as a pattern, from its `objectMember`s or items so far. -/
structure Parts where
  /-- Everything in it can be assigned to (`Shape.isPart`). -/
  assignable : Bool := true
  /-- A rest has been read, which has to be the last part. -/
  closed : Bool := false

/-- Adds a part to `parts`, one that is `assignable` or not and a `rest` or not. -/
def Parts.add (parts : Parts) (assignable rest : Bool) : Parts :=
  ⟨parts.assignable && !parts.closed && assignable, parts.closed || rest⟩

def Parts.shape (parts : Parts) : Shape := if parts.assignable then .pattern else .other

def list : Parser Shape := do
  expect "["
  let (parts, _) ← inBrackets (fold "]" ({} : Parts) fun parts => do
    if ← sees "," then return parts.add true false
    if ← eat "..." then return parts.add (← read (.assignment true)).isTarget true
    return parts.add (← read (.assignment true)).isPart false)
  expect "]"
  return parts.shape

/-- A member of an object. The answer says whether it can be assigned to. -/
def objectMember : Parser Bool := do
  let isAsync ← modifiers false
  if (← contextual "get") || (← contextual "set") then
    accessor read true
    return false
  let generator ← eat "*"
  let short ← seesName
  propertyName read
  if generator || (← seesAny ["(", "<"]) then
    functionRest read isAsync generator true
    return false
  if short && !(← sees ":") then
    initializer read
    return true
  expect ":"
  return (← read (.assignment true)).isPart

def object : Parser Shape := do
  expect "\x7b"
  let (parts, _) ← inBrackets (fold "\x7d" ({} : Parts) fun parts => do
    if ← eat "..." then return parts.add (← read (.assignment true)).isTarget true
    return parts.add (← objectMember read) false)
  expect "\x7d"
  return parts.shape

/-! ## Simple operands -/

/-- An `expression` in parentheses. -/
def group : Parser Shape := do
  expect "("
  let (shape, trailing) ← inBrackets (fold ")" (none : Option Shape) fun before => do
    let shape ← read (.assignment true)
    return some (if before.isNone then shape.aroundPlace else .other))
  if trailing then fail
  expect ")"
  match shape with
  | some shape => return shape
  | none => fail

/-- A regular expression, which is trusted only if every token before it was in order
(`sawFault`). -/
def regex : Parser Unit := do
  reread .regex
  if ← sawFault then fail
  next

/-- A template from its first piece on, which is all of it if `closed`. -/
def template (closed : Bool) : Parser Unit := do
  next
  unless closed do templateRest (discard (inBrackets (expression read)))

/-- A call of `import` from behind that word up to its parenthesis, which is the leader if the call
names a module, or else up to the argument behind it. -/
def importCallHead : Parser (Option Unit) := do
  if ← eat "." then
    unless (← eat "source") || (← eat "defer") do fail
  if ← namesModule then return some ()
  expect "("
  if ← sees ")" then fail
  return none

/-- What the word `import` begins in an expression: a call that asks for a module, or the module
itself. -/
def importOperand : Parser Unit := do
  if ← nextIs (do return (← eat ".") && (← sees "meta")) then
    next
    next
    return ← next
  let named ← naming (fun _ => .importCall) importCallHead
  inBrackets do
    if named.isNone then assignment read
    if ← eat "," then
      unless ← sees ")" do
        assignment read
        discard (eat ",")
  expect ")"

/-- Whether an asynchronous function begins here. -/
def startsAsyncFunction : Parser Bool := do
  unless ← sees "async" do return false
  nextOnLine (sees "function")

/-- An operand that is the word `word`, or begins with it. -/
def wordOperand (word : String) : Parser Shape := do
  match word with
  | "this" | "super" | "null" | "true" | "false" =>
    next
    return .other
  | "function" =>
    function read
    return .other
  | "class" =>
    classRest read
    return .other
  | "import" =>
    importOperand read
    return .other
  | word =>
    if ← startsAsyncFunction then
      function read
      return .other
    name
    return .name word

/-- An operand that holds no other one at its front: a word, a literal, a list, an object or a
`group`. -/
def simpleOperand : Parser Shape := do
  match ← lexeme with
  | .word word => wordOperand read word
  | .number sound =>
    unless sound do fail
    next
    return .other
  | .text _ =>
    next
    return .other
  | .template closed =>
    template read closed
    return .other
  | .privateName =>
    next
    unless ← sees "in" do fail
    return .other
  | .mark "(" => group read
  | .mark "[" => list read
  | .mark "\x7b" => object read
  | .mark "/" | .mark "/=" =>
    regex
    return .other
  | .mark "@" =>
    decorators read
    classRest read
    return .other
  | _ => fail

/-! ## Suffixes -/

/-- Operators with two sides, apart from those that are words. -/
def binarySigns : List String :=
  ["??", "||", "&&", "|", "^", "&", "==", "!=", "===", "!==", "<", ">", "<=", ">=", "<<", ">>",
    ">>>", "+", "-", "*", "/", "%", "**"]

/-- Whether the token is an operator with two sides, one of the `binarySigns` or a word. -/
def seesBinary : Parser Bool := do
  if ← seesAny binarySigns then return true
  if ← seesAny ["instanceof", "as", "satisfies"] then return true
  return (← sees "in") && (← context).allowIn

/-- The punctuation that an expression may begin with, for `startsExpression`. -/
def expressionMarks : List String :=
  ["(", "[", "\x7b", "/", "/=", "+", "-", "~", "!", "++", "--", "<", "@"]

/-- The `reserved` words that an expression may begin with. -/
def expressionWords : List String :=
  ["this", "super", "null", "true", "false", "function", "class", "new", "delete", "typeof", "void"]

/-- Whether an expression may begin here. -/
def startsExpression : Parser Bool := do
  match ← lexeme with
  | .number _ | .text _ | .template _ | .privateName => return true
  | .mark mark => return expressionMarks.contains mark
  | .word "import" => nextIs (seesAny ["(", "<", "."])
  | .word word => return isName word || expressionWords.contains word
  | _ => return false

/-- Whether the token shows that type arguments end in front of it, as in `f<T>(x)`. -/
def followsTypeArguments : Parser Bool := do
  match ← lexeme with
  | .template _ => return true
  | _ =>
    if ← sees "(" then return true
    if ← seesAny ["<", ">", "+", "-"] then return false
    if (← onNewLine) || (← seesBinary) then return true
    return !(← startsExpression)

/-- Type arguments inside an expression, where `<` may also be an operator. -/
def operandTypeArguments : Parser Unit := do
  unless ← opensAngle do fail
  next
  delimited ">" (type read)
  reread .operator
  expect ">"
  unless ← followsTypeArguments do fail

/-- An operand with the suffixes read so far, by `suffix`. -/
structure Suffixed where
  shape : Shape
  /-- A suffix may have been left out, so nothing can be assigned to it. -/
  chained : Bool := false

/-- The `operand` with a suffix that leads to a part of it, such as `.x`. -/
def Suffixed.part (operand : Suffixed) : Suffixed :=
  { operand with shape := if operand.chained then .other else .place }

def Suffixed.value (operand : Suffixed) : Suffixed := { operand with shape := .other }

def memberName : Parser Unit := do
  match ← lexeme with
  | .word _ | .privateName => next
  | _ => fail

/-- What follows `?.`. -/
def chainSuffix : Parser Suffixed := do
  let result : Suffixed := ⟨.other, true⟩
  match ← lexeme with
  | .word _ | .privateName =>
    next
    return result
  | .template closed =>
    template read closed
    return result
  | .mark "[" =>
    next
    discard (inBrackets (expression read))
    expect "]"
    return result
  | _ =>
    discard (attempt (operandTypeArguments read))
    match ← lexeme with
    | .template closed => template read closed
    | _ => arguments read
    return result

/-- One suffix of an operand; calls count among them if `calls` says so. -/
def suffix (calls : Bool) (operand : Suffixed) : Parser (Suffixed ⊕ Shape) := do
  match ← lexeme with
  | .mark "." =>
    next
    memberName
    return .inl operand.part
  | .mark "?." =>
    unless calls do return .inr operand.shape
    next
    return .inl (← chainSuffix read)
  | .mark "[" =>
    if (← context).inDecorator then return .inr operand.shape
    next
    discard (inBrackets (expression read))
    expect "]"
    return .inl operand.part
  | .template closed =>
    template read closed
    return .inl operand.value
  | .mark "!" =>
    if ← onNewLine then return .inr operand.shape
    next
    return .inl { operand with shape := operand.shape.aroundPlace }
  | .mark "(" =>
    unless calls do return .inr operand.shape
    arguments read
    return .inl operand.value
  | _ =>
    if (← attempt (operandTypeArguments read)).isNone then return .inr operand.shape
    return .inl operand.value

/-- The suffixes of an `operand` that has some of them already, calls among them if `calls` says
so. -/
def suffixes (calls : Bool) (operand : Suffixed) : Parser Shape :=
  iterate (suffix read calls) operand

/-- An operand without its suffixes. A `new` object takes the arguments that follow it. -/
def operandHead : Parser Suffixed := do
  unless ← eat "new" do return { shape := ← simpleOperand read }
  if ← eat "." then word
  else
    discard (read .constructor)
    if ← sees "(" then arguments read
  return { shape := .other }

/-- What a `new` object is made of: an operand without calls. -/
def constructor : Parser Shape := do suffixes read false (← operandHead read)

/-! ## Calls that ask for a module -/

/-- What stands between a function and the parenthesis of its call: `?.`, type arguments or nothing.
The answer says whether the function may be left out. -/
def callHead : Parser Bool := do
  discard (attempt (operandTypeArguments read))
  unless ← eat "?." do return false
  discard (attempt (operandTypeArguments read))
  return true

/-- A call of `require` that names a module, from behind that word up to its parenthesis. -/
def requireHead : Parser (Option Bool) := do
  let chained ← callHead read
  unless ← namesModule do fail
  return some chained

/-- A call of `require` that names a module. -/
def requireCall : Parser Suffixed := do
  let some chained ← naming (fun _ => .requireCall) (requireHead read) | fail
  inBrackets do
    if ← eat "," then delimited ")" (argument read)
  expect ")"
  return { shape := .other, chained }

def operand : Parser Shape := do
  let asks ← foreseen do
    expect "require"
    return (← requireHead read).isSome
  suffixes read true (← if asks then requireCall read else operandHead read)

end FlowMigration.Script.Grammar
