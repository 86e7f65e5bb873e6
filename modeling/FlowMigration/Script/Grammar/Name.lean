import FlowMigration.Script.Grammar.Basic

/-! # Names and modifiers

* `Grammar.seesName`, `Grammar.name`: identifiers, which reserved words are not.
* `Grammar.propertyName`: names of members.
* `Grammar.modifiers`: the words in front of a declaration or a member.
-/

namespace FlowMigration.Script.Grammar

open Script.Parser

/-! ## Names -/

/-- Words that name nothing. `yield` and `await` do in some places and are taken for names. -/
def reserved : List String :=
  ["break", "case", "catch", "class", "const", "continue", "debugger", "default", "delete", "do",
    "else", "enum", "export", "extends", "false", "finally", "for", "function", "if", "import",
    "in", "instanceof", "new", "null", "return", "super", "switch", "this", "throw", "true", "try",
    "typeof", "var", "void", "while", "with"]

def isName (word : String) : Bool := !reserved.contains word

/-- Whether the token is any word. -/
def seesWord : Parser Bool := do
  match ← lexeme with
  | .word _ => return true
  | _ => return false

/-- Whether the token is a name, a word that is not `reserved`. -/
def seesName : Parser Bool := do
  match ← lexeme with
  | .word word => return isName word
  | _ => return false

/-- Whether the token is a text in quotes. -/
def seesText : Parser Bool := do
  match ← lexeme with
  | .text _ => return true
  | _ => return false

/-- Any word. -/
def word : Parser Unit := do
  unless ← seesWord do fail
  next

def name : Parser Unit := do
  unless ← seesName do fail
  next

def text : Parser Unit := do
  unless ← seesText do fail
  next

/-- Whether `test` holds on the token behind this one, and both are on the same line. -/
def nextOnLine (test : Parser Bool) : Parser Bool :=
  foreseen do
    next
    if ← onNewLine then return false
    test

/-- Whether `test` holds on the token behind this one. -/
def nextIs (test : Parser Bool) : Parser Bool :=
  foreseen do
    next
    test

/-- The name of a member: a word, a text, a number or an expression in brackets, which `read`
reads. -/
def propertyName (read : Reader) : Parser Unit := do
  match ← lexeme with
  | .word _ | .text _ | .privateName => next
  | .number sound => if sound then next else fail
  | .mark "[" =>
    next
    discard (inBrackets (expression read))
    expect "]"
  | _ => fail

/-! ## Decorators -/

/-- The decorators in front of a class or a member, each a `@` and an expression. -/
def decorators (read : Reader) : Parser Unit :=
  many do
    if ← eat "@" then
      discard (within (fun context => { context with inDecorator := true }) (read .operand))
      return true
    else return false

/-! ## Modifiers -/

def modifierWords : List String :=
  ["abstract", "accessor", "async", "const", "declare", "default", "export", "in", "out",
    "override", "private", "protected", "public", "readonly", "static"]

/-- Whether the token may stand behind a modifier such as `static` or `async`. -/
def followsModifier : Parser Bool := do
  match ← lexeme with
  | .word _ | .text _ | .number _ | .privateName => return true
  | .mark mark => return ["[", "\x7b", "*", "..."].contains mark
  | _ => return false

/-- Whether the token may stand behind `export` as a modifier. -/
def followsExport : Parser Bool := do
  if ← sees "@" then return true
  if ← seesAny ["*", "as", "\x7b"] then return false
  followsModifier

/-- Whether the token may stand behind `default` as a modifier. -/
def followsDefault : Parser Bool := do
  if ← seesAny ["class", "function", "interface", "@"] then return true
  if ← sees "abstract" then return ← nextOnLine (sees "class")
  if ← sees "async" then return ← nextOnLine (sees "function")
  return false

/-- Whether the token, which is this word, is a modifier: what is behind it decides.
`constMember` says whether `const` may stand in front of a member. -/
def isModifier (constMember : Bool) (word : String) : Parser Bool :=
  match word with
  | "const" => if constMember then nextOnLine followsModifier else nextIs (sees "enum")
  | "export" => nextIs do
    if ← sees "default" then return ← nextIs followsDefault
    if ← sees "type" then return ← nextIs followsExport
    followsExport
  | "default" => nextIs followsDefault
  | "static" | "get" | "set" => nextIs followsModifier
  | _ => nextOnLine followsModifier

/-- Goes past `get` or `set` in front of an accessor. -/
def contextual (word : String) : Parser Bool := do
  unless ← sees word do return false
  unless ← isModifier false word do return false
  next
  return true

/-- The modifiers of a declaration or a member. In a class, `const` may be one and `static` in front
of a block is none. The answer says whether `async` is among them. -/
def modifiers (inClass : Bool) : Parser Bool :=
  iterate (fun (isAsync, isStatic) => do
    match ← lexeme with
    | .word word =>
      if !modifierWords.contains word || (isStatic && word == "static") then return .inr isAsync
      if inClass && word == "static" then
        if ← nextIs (sees "\x7b") then return .inr isAsync
      unless ← isModifier inClass word do return .inr isAsync
      next
      return .inl (isAsync || word == "async", isStatic || word == "static")
    | _ => return .inr isAsync) (false, false)

end FlowMigration.Script.Grammar
