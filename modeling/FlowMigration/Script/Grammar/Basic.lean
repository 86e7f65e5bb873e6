import FlowMigration.Script.Parser

/-! # Phrases of a source file

The grammar refers to itself at a few kinds of phrases. Each part of it takes a `Reader` for those
kinds, so that every part is plain recursion on nothing but its lists.

* `Phrase`: the kinds of phrases that others contain.
* `Shape`: what is told about an expression.
* `endStatement`: where a statement may end.
-/

namespace FlowMigration.Script

inductive Phrase where
  /-- A statement; `alone` says that it is no member of a list of statements. -/
  | statement (alone : Bool)
  /-- An expression without commas; `returnType` says whether an arrow function in it may have a
  type for what it returns. -/
  | assignment (returnType : Bool)
  /-- An expression without binary operators, such as `-x` or `await f()`. -/
  | unary
  /-- An expression without operators, such as `f(x).y`. -/
  | operand
  /-- An operand without calls, of which `new` makes an object. -/
  | constructor
  | type
  /-- A type without `|`, `&` and conditions. -/
  | typeOperand
  /-- What a variable binds: a name or a pattern. -/
  | binding
  /-- A tag and what it encloses; `child` says that it stands inside another one. -/
  | element (child : Bool)
deriving DecidableEq, Repr

/-- What the parts of the grammar ask about an expression that they contain, once a `Reader` has
read it. -/
inductive Shape where
  | name (word : String)
  /-- Something else that can be assigned to. -/
  | place
  /-- A list or an object of things that can be assigned to. -/
  | pattern
  /-- An assignment, which inside a pattern is a default. -/
  | default
  | other
deriving DecidableEq, Repr

namespace Shape

/-- Whether a single value can be assigned to what has this `Shape`. -/
def isPlace : Shape → Bool
  | .name _ | .place => true
  | _ => false

/-- Whether something can be assigned to it, a value to a place or parts to a pattern. -/
def isTarget : Shape → Bool
  | .name _ | .place | .pattern => true
  | _ => false

/-- Whether it can be part of a pattern, as an `isTarget` or with a default. -/
def isPart : Shape → Bool
  | .default => true
  | shape => shape.isTarget

/-- The shape of an expression that is a place if the one inside it, of this `shape`, is. -/
def aroundPlace (shape : Shape) : Shape := if shape.isPlace then .place else .other

end Shape

/-- Reads phrases of every `Phrase` kind, each with its `Shape`. -/
abbrev Reader := Phrase → Parser Shape

namespace Grammar

open Script.Parser

/-! ## Contexts -/

/-- Runs `parser` inside brackets, where nothing of what surrounds them forbids an operator. -/
def inBrackets {α : Type} (parser : Parser α) : Parser α :=
  within (fun context => { context with allowIn := true, inDecorator := false }) parser

/-- Runs `parser` inside a function, which is `isAsync` and a `generator` or not. -/
def inFunction {α : Type} (isAsync generator : Bool) (parser : Parser α) : Parser α :=
  within (fun _ => { inAsync := isAsync, inGenerator := generator }) parser

/-! ## Ends -/

/-- Whether a statement may end in front of the token. -/
def mayEnd : Parser Bool := do
  if ← seesAny [";", "\x7d"] then return true
  if (← lexeme) == .fin then return true
  onNewLine

/-- The end of a statement: a semicolon, which may be left out where a line or a block ends
(`mayEnd`). -/
def endStatement : Parser Unit := do
  unless ← mayEnd do fail
  discard (eat ";")

/-- The end of a member of a type: a `,`, or what `endStatement` takes. -/
def endMember : Parser Unit := do
  unless ← eat "," do endStatement

/-! ## Parts -/

variable (read : Reader)

def type : Parser Unit := discard (read .type)

def binding : Parser Unit := discard (read .binding)

def assignment : Parser Unit := discard (read (.assignment true))

/-- Expressions with commas between them; the `Shape` of one that stands alone. -/
def expression : Parser Shape := do
  let shape ← read (.assignment true)
  iterate (fun shape => do
    if ← eat "," then
      assignment read
      return .inl .other
    else return .inr shape) shape

/-- The value that is given with `=`, if there is one. -/
def initializer : Parser Unit := do
  if ← eat "=" then assignment read

/-- An `expression` in parentheses. -/
def condition : Parser Unit := do
  expect "("
  discard (inBrackets (expression read))
  expect ")"

end Grammar

end FlowMigration.Script
