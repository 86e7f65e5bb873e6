import FlowMigration.Script.Grammar.Element

/-! # Expressions

* `Grammar.unary`: an expression without operators that have two sides.
* `Grammar.arrowFunction`: arrow functions, told from what else begins with a parenthesis.
* `Grammar.plainExpression`: an expression without commas.
-/

namespace FlowMigration.Script.Grammar

open Script.Parser

variable (read : Reader)

/-! ## Operators with one side -/

/-- Whether the token is a word, a number or a text, on the line of the word before it. -/
def goesOnLine : Parser Bool :=
  nextOnLine do
    match ← lexeme with
    | .word _ | .number _ | .text _ => return true
    | _ => return false

/-- An operand whose value may be counted up or down by `++` and `--`. -/
def counted : Parser Shape := do
  if ← seesAny ["++", "--"] then
    next
    unless (← read .operand).isPlace do fail
    return .other
  if (← sees "<") && (← nextIs (do return (← seesWord) || (← sees ">"))) then
    return ← read (.element false)
  let shape ← read .operand
  if (← seesAny ["++", "--"]) && !(← onNewLine) then
    unless shape.isPlace do fail
    next
    return .other
  return shape

/-- Whether `await` is an operator here. -/
def startsAwait : Parser Bool := do
  unless ← sees "await" do return false
  if (← context).inAsync then return true
  goesOnLine

def unary : Parser Shape := do
  if (← seesAny ["+", "-", "~", "!", "delete", "typeof", "void"]) || (← startsAwait) then
    next
    discard (read .unary)
    return .other
  counted read

/-! ## Operators with two sides -/

/-- Operands and the operators between them (`seesBinary`), from the first operand on, which has
this `shape`. -/
def binaryRest (shape : Shape) : Parser Shape :=
  iterate (fun shape => do
    if ← sees ">" then reread .operator
    unless ← seesBinary do return .inr shape
    if ← seesAny ["as", "satisfies"] then
      if ← onNewLine then return .inr shape
      next
      type read
      return .inl shape.aroundPlace
    next
    discard (read .unary)
    return .inl .other) shape

/-! ## Arrow functions -/

/-- The beginning of an arrow function, as `arrowHead` reads it. -/
structure ArrowHead where
  isAsync : Bool
  hasReturnType : Bool

/-- An arrow function up to its `=>`. -/
def arrowHead : Parser ArrowHead := do
  let isAsync ← eat "async"
  let hasReturnType ← within (fun context =>
      { context with inAsync := context.inAsync || isAsync }) do
    typeParameters read
    parameters read
    returnType read
  expect "=>"
  return ⟨isAsync, hasReturnType⟩

/-- What an arrow function does, behind its `=>`: a block or an expression. -/
def arrowBody (isAsync returnType : Bool) : Parser Unit :=
  within (fun context => { context with inAsync := context.inAsync || isAsync }) do
    if ← sees "\x7b" then functionBody read else discard (read (.assignment returnType))

/-- Whether an arrow function begins with a parenthesis, as far as its first tokens tell. -/
inductive Likelihood where
  | certain
  | possible
  | impossible
deriving DecidableEq

/-- The `Likelihood` of an arrow function behind its parenthesis. -/
def afterParenthesis : Parser Likelihood := do
  if ← eat ")" then
    return if ← seesAny ["=>", ":", "\x7b"] then .certain else .impossible
  if ← seesAny ["[", "\x7b"] then return .possible
  if ← sees "..." then return .certain
  if let .word word ← lexeme then
    if modifierWords.contains word && word ≠ "async" then
      if ← nextIs seesName then
        return if ← nextIs (sees "as") then .impossible else .certain
  unless (← seesName) || (← sees "this") do return .impossible
  next
  if ← sees ":" then return .certain
  if ← eat "?" then
    return if ← seesAny [":", ",", "=", ")"] then .certain else .impossible
  if ← seesAny [",", "=", ")"] then return .possible
  return .impossible

/-- The likelihood of an arrow function behind the `<` of its type parameters. A tag is more likely
unless the list goes on as no tag does. -/
def afterAngle : Parser Likelihood := do
  discard (eat "const")
  unless ← seesName do return .impossible
  next
  if ← eat "extends" then
    return if ← seesAny ["=", ">", "/"] then .impossible else .certain
  return if ← seesAny [",", "="] then .certain else .impossible

/-- The `Likelihood` of an arrow function with parentheses. -/
def arrowLikelihood : Parser Likelihood := do
  unless ← seesAny ["(", "<", "async"] do return .impossible
  let answer ← foresee do
    if ← eat "async" then
      if ← onNewLine then return .impossible
    if ← eat "(" then afterParenthesis
    else if ← eat "<" then afterAngle
    else return .impossible
  return answer.getD .impossible

/-- An arrow function whose parameters are in parentheses. Where the type of what it returns
(`returnType`) is taken for the end of a condition otherwise, a colon has to follow. -/
def arrowFunction (returnType : Bool) : Parser Bool := do
  match ← arrowLikelihood with
  | .impossible => return false
  | .certain =>
    arrowBody read (← arrowHead read).isAsync returnType
    return true
  | .possible =>
    let head ← attempt do
      let head ← arrowHead read
      if head.hasReturnType && !returnType then
        unless ← foreseen (do arrowBody read head.isAsync returnType; sees ":") do fail
      return head
    match head with
    | none => return false
    | some head =>
      arrowBody read head.isAsync returnType
      return true

/-- An `async` arrow function with one bare parameter. -/
def asyncArrow (returnType : Bool) : Parser Bool := do
  unless ← sees "async" do return false
  let bare : Parser Bool := do
    name
    if ← onNewLine then return false
    sees "=>"
  unless ← nextOnLine bare do return false
  next
  next
  next
  arrowBody read true returnType
  return true

/-! ## Assignments and conditions -/

def assignmentSigns : List String :=
  ["+=", "-=", "*=", "/=", "%=", "**=", "<<=", ">>=", ">>>=", "&=", "|=", "^=", "&&=", "||=", "??="]

/-- Whether `yield` is an operator here. -/
def startsYield : Parser Bool := do
  unless ← sees "yield" do return false
  if (← context).inGenerator then return true
  goesOnLine

/-- What a generator hands out with `yield`. -/
def yielded : Parser Unit := do
  next
  if ← onNewLine then return
  let delegates ← eat "*"
  let ends := (← seesAny [";", "\x7d", ")", "]", ":", ",", "in"]) || (← atEnd)
  if delegates || !ends then assignment read

/-- The rest of an expression behind its condition, if a `?` makes it one. -/
def conditionRest (returnType : Bool) (shape : Shape) : Parser Shape := do
  unless ← eat "?" do return shape
  within (fun context => { context with allowIn := true }) (discard (read (.assignment false)))
  expect ":"
  discard (read (.assignment returnType))
  return .other

/-- An expression without commas, which is what `expression` puts commas between. -/
def plainExpression (returnType : Bool) : Parser Shape := do
  if ← startsYield then
    yielded read
    return .other
  if ← arrowFunction read returnType then return .other
  if ← asyncArrow read returnType then return .other
  let shape ← binaryRest read (← read .unary)
  if let .name _ := shape then
    if ← eat "=>" then
      arrowBody read false returnType
      return .other
  if ← sees "=" then
    unless shape.isTarget do fail
    next
    discard (read (.assignment returnType))
    return .default
  if ← seesAny assignmentSigns then
    unless shape.isPlace do fail
    next
    discard (read (.assignment returnType))
    return .other
  conditionRest read returnType shape

end FlowMigration.Script.Grammar
