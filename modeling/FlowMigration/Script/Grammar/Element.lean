import FlowMigration.Script.Grammar.Operand

/-! # Elements

* `Grammar.element`: a tag with its attributes, and the children up to its closing tag.
-/

namespace FlowMigration.Script.Grammar

open Script.Parser

variable (read : Reader)

/-! ## Tags -/

/-- A part of the name of a tag or an attribute, which may hold `-`. -/
def tagWord : Parser Unit := do
  unless ← seesWord do fail
  nextBehindTag

/-- The name of a tag, a `tagWord` with a namespace in front or a path behind. -/
def tagName : Parser Unit := do
  tagWord
  if ← eat ":" then tagWord
  else
    many do
      unless ← eat "." do return false
      tagWord
      return true

/-- The value of an attribute: a text, an `expression` in braces or an element. -/
def attributeValue : Parser Unit := do
  match ← lexeme with
  | .elementString => next
  | .mark "\x7b" =>
    next
    unless ← sees "\x7d" do discard (inBrackets (expression read))
    expect "\x7d"
  | .mark "<" => discard (read (.element false))
  | _ => fail

def tagAttribute : Parser Unit := do
  if ← eat "\x7b" then
    expect "..."
    discard (inBrackets (expression read))
    expect "\x7d"
  else
    tagWord
    if ← eat ":" then tagWord
    if ← sees "=" then
      nextIn .tagValue
      attributeValue read

def tagAttributes : Parser Unit :=
  many do
    if ← seesAny [">", "/"] then return false
    tagAttribute read
    return true

/-- The end of a tag, behind which an element (`inElement`) or code goes on. -/
def closeTag (inElement : Bool) : Parser Unit := do
  unless ← sees ">" do fail
  if inElement then nextIn .element else next

/-! ## Children -/

/-- An `expression` in braces between tags, or a comment in them. -/
def elementExpression : Parser Unit := do
  expect "\x7b"
  unless ← sees "\x7d" do
    discard (eat "...")
    discard (inBrackets (expression read))
  unless ← sees "\x7d" do fail
  nextIn .element

/-- What an `element` encloses, up to its closing tag. -/
def children : Parser Unit :=
  many do
    match ← lexeme with
    | .elementText =>
      nextIn .element
      return true
    | .mark "\x7b" =>
      elementExpression read
      return true
    | .mark "<" =>
      if ← nextIs (sees "/") then return false
      discard (read (.element true))
      return true
    | _ => fail

/-- A tag and what it encloses; `child` says that it stands inside another one. The names of the
tags need not agree. -/
def element (child : Bool) : Parser Shape := do
  expect "<"
  let mut alone := false
  unless ← sees ">" do
    tagName
    typeArguments read
    tagAttributes read
    alone ← eat "/"
  if alone then closeTag child
  else
    closeTag true
    children read
    expect "<"
    expect "/"
    unless ← sees ">" do tagName
    closeTag child
  markElement
  return .other

end FlowMigration.Script.Grammar
