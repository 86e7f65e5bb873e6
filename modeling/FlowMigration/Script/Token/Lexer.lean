import FlowMigration.Script.Token.Number
import FlowMigration.Script.Token.Trivia

/-! # Reading tokens

How a text begins depends on where it stands: between tags it is text up to the next tag, and some
punctuation is read again once it is known what it opens or closes.

* `Token.next`: the token at a place.
* `Token.reread`, `Token.tagName`: a token taken in another form.
-/

namespace FlowMigration.Script

/-- Where a token stands, which decides how `next` reads it. -/
inductive Surrounding where
  | code
  /-- Between an opening and a closing tag. -/
  | element
  /-- Behind the `=` of an attribute. -/
  | tagValue
deriving DecidableEq, Repr

/-- What a token is taken for after all, by `reread`. -/
inductive Form where
  /-- The opening of a list of type arguments or of a tag. -/
  | lessThan
  /-- An operator that begins with `>`. -/
  | operator
  | regex
  /-- A template that goes on behind an expression in it. -/
  | template
deriving DecidableEq, Repr

namespace Reading

/-! ## Words -/

def isWordStart (c : Char) : Bool := Text.isNameStart c || c == '\\'

/-- Whether `c` may stand in a word, as the `first` character or later. -/
def fitsWord (first : Bool) (c : Char) : Bool :=
  if first then Text.isNameStart c else Text.isNamePart c

/-- The character of an escape inside a word, and how much follows the backslash. No character if it
does not fit (`fitsWord`); a pair of escapes stands for none. -/
def wordEscape (first : Bool) : List Char → List Char × Nat
  | 'u' :: rest =>
    let point := Escape.codePoint rest
    match point.pieces with
    | [.char c] =>
      (if fitsWord first c && point.length ≠ 10 then [c] else [], point.length + 1)
    | _ => ([], point.length + 1)
  | _ :: _ => ([], 1)
  | [] => ([], 0)

/-- Reads a word on; `skip` characters belong to an escape, and the characters found are listed
backwards. -/
def scanWord : (skip : Nat) → List Char → (length : Nat) → (faulty : Bool) → List Char → Reading
  | skip + 1, name, length, faulty, _ :: rest => scanWord skip name (length + 1) faulty rest
  | 0, name, length, faulty, c :: rest =>
    if Text.isNamePart c then scanWord 0 (c :: name) (length + 1) faulty rest
    else if c == '\\' then
      let (found, skip) := wordEscape name.isEmpty rest
      scanWord skip (found ++ name) (length + 1) (faulty || found.isEmpty) rest
    else ⟨.word (String.ofList name.reverse), length, faulty⟩
  | _, name, length, faulty, [] => ⟨.word (String.ofList name.reverse), length, faulty⟩

def word (text : List Char) : Reading := scanWord 0 [] 0 false text

/-! ## Punctuation -/

/-- The punctuation that begins with `c`, longer pieces first. -/
def marksFrom (c : Char) : List String :=
  match c with
  | '\x7b' => ["\x7b"]
  | '\x7d' => ["\x7d"]
  | '(' => ["("]
  | ')' => [")"]
  | '[' => ["["]
  | ']' => ["]"]
  | ';' => [";"]
  | ',' => [","]
  | '~' => ["~"]
  | ':' => [":"]
  | '@' => ["@"]
  | '>' => [">"]
  | '<' => ["<<=", "<<", "<=", "<"]
  | '.' => ["...", "."]
  | '?' => ["??=", "??", "?.", "?"]
  | '!' => ["!==", "!=", "!"]
  | '=' => ["===", "==", "=>", "="]
  | '+' => ["++", "+=", "+"]
  | '-' => ["--", "-=", "-"]
  | '*' => ["**=", "**", "*=", "*"]
  | '/' => ["/=", "/"]
  | '%' => ["%=", "%"]
  | '&' => ["&&=", "&&", "&=", "&"]
  | '|' => ["||=", "||", "|=", "|"]
  | '^' => ["^=", "^"]
  | _ => []

/-- The operators that begin with `>`, longer ones first. -/
def greaterMarks : List String := [">>>=", ">>>", ">>=", ">>", ">=", ">"]

/-- Whether `?.` opens a chain; in front of a digit the point belongs to a number. -/
def isChain (text : List Char) : Bool := !(text[2]?.any Char.isDigit)

def ofMark (text : List Char) (marks : List String) : Option Reading :=
  (marks.find? fun mark =>
    mark.toList.isPrefixOf text && (mark ≠ "?." || isChain text)).map fun mark =>
      ⟨.mark mark, mark.length, false⟩

/-! ## Templates and regular expressions -/

def broken (length : Nat) : Reading := ⟨.broken, length, true⟩

/-- Reads a template, of which `length` characters have been read, up to its end or to the next
expression in it. -/
def scanTemplate : (length : Nat) → List Char → Reading
  | length, '`' :: _ => ⟨.template true, length + 1, false⟩
  | length, '$' :: '\x7b' :: _ => ⟨.template false, length + 2, false⟩
  | length, '\\' :: _ :: rest => scanTemplate (length + 2) rest
  | length, _ :: rest => scanTemplate (length + 1) rest
  | length, [] => broken length

/-- The length of a regular expression up to its closing slash, which a class does not hold
(`inClass`). -/
def patternLength : (inClass : Bool) → (length : Nat) → List Char → Option Nat
  | _, _, [] => none
  | inClass, length, '\\' :: c :: rest =>
    if isLineBreak c then none else patternLength inClass (length + 2) rest
  | inClass, length, c :: rest =>
    if isLineBreak c then none
    else if c == '/' && !inClass then some (length + 1)
    else patternLength (if c == '[' then true else if c == ']' then false else inClass)
      (length + 1) rest

def isFlag (c : Char) : Bool := c.isAlphanum || c == '_' || c == '$'

/-- Whether `flags` are those of a regular expression: known ones, and none twice. -/
def soundFlags (flags : List Char) : Bool :=
  flags.all (fun c => "gimsuydv".toList.contains c) && flags.eraseDups.length == flags.length

/-- The regular expression that `text` begins with, its `patternLength` and its flags. -/
def regex (text : List Char) : Reading :=
  match patternLength false 1 (text.drop 1) with
  | none => broken 1
  | some length =>
    let flags := (text.drop length).takeWhile isFlag
    ⟨.regex, length + flags.length, !soundFlags flags⟩

/-! ## Tags -/

def endsElementText (c : Char) : Bool := ['\x7b', '\x7d', '<', '>'].contains c

/-- What `text` between tags begins with: a tag, an expression in braces or the text in front of
them. -/
def elementChild (text : List Char) : Reading :=
  match text with
  | [] => ⟨.fin, 0, false⟩
  | '<' :: _ => ⟨.mark "<", 1, false⟩
  | '\x7b' :: _ => ⟨.mark "\x7b", 1, false⟩
  | text =>
    let length := (text.takeWhile fun c => !endsElementText c).length
    match text[length]? with
    | some c => if c == '<' || c == '\x7b' then ⟨.elementText, length, false⟩ else broken length
    | none => broken length

/-- The value of an attribute that ends in `quote`, which has no escapes. -/
def attributeValue (quote : Char) (text : List Char) : Reading :=
  let length := ((text.drop 1).takeWhile (· ≠ quote)).length
  if length + 1 < text.length then ⟨.elementString, length + 2, false⟩ else broken (length + 1)

/-- The name of a tag or an attribute, which may hold `-`. -/
def tagName (text : List Char) : Reading :=
  let read := word text
  match read.lexeme with
  | .word name =>
    let more := (text.drop read.length).takeWhile fun c => Text.isNamePart c || c == '-'
    ⟨.word (name ++ String.ofList more), read.length + more.length, read.faulty⟩
  | _ => read

/-! ## Code -/

/-- The token that `text` begins with, in code. -/
def code (text : List Char) : Reading :=
  match text with
  | [] => ⟨.fin, 0, false⟩
  | c :: rest =>
    if isWordStart c then word text
    else if c == '"' || c == '\'' then
      match Literal.ofText text with
      | some literal => ⟨.text literal.value, literal.length, literal.faulty⟩
      | none => broken 1
    else if c == '`' then scanTemplate 1 rest
    else if c.isDigit || (c == '.' && rest.head?.any Char.isDigit) then Number.ofText text
    else if c == '#' then
      if rest.head?.any isWordStart then
        let name := word rest
        ⟨.privateName, name.length + 1, name.faulty⟩
      else broken 1
    else (ofMark text (marksFrom c)).getD (broken 1)

/-- The reading of a text that is taken in another `Form`. -/
def ofForm : Form → List Char → Reading
  | .lessThan, _ => ⟨.mark "<", 1, false⟩
  | .operator, text => (ofMark text greaterMarks).getD (broken 1)
  | .regex, text => regex text
  | .template, text => scanTemplate 1 (text.drop 1)

end Reading

namespace Token

/-- The token behind the blanks and comments at `input`. -/
def inCode (input : Input) : Token :=
  let trivia := Trivia.ofText input.rest
  let start := input.skip trivia.length
  { toReading := Reading.code start.rest, start, newline := trivia.newline }

/-- The token at a place in the given `Surrounding`. -/
def next : Surrounding → Input → Token
  | .code, input => inCode input
  | .element, input =>
    { toReading := Reading.elementChild input.rest, start := input, newline := false }
  | .tagValue, input =>
    match input.rest.head? with
    | some c =>
      if c == '"' || c == '\'' then
        { toReading := Reading.attributeValue c input.rest, start := input, newline := false }
      else inCode input
    | none => inCode input

/-- The `token` taken in another `form`. -/
def reread (form : Form) (token : Token) : Token :=
  { token with toReading := Reading.ofForm form token.start.rest }

/-- The `token` taken for the name of a tag or an attribute. -/
def tagName (token : Token) : Token :=
  { token with toReading := Reading.tagName token.start.rest }

end Token

end FlowMigration.Script
