import FlowMigration.Source.Options
import FlowMigration.Source.Pragma
import FlowMigration.Text.Pattern

/-! # The text scan

What can be told about a source file from its text alone. It serves files that cannot be parsed; it
rather reports an import too many than one too few.

* `TextScan.specifiers`: the module specifiers of a text, with their offsets.
* `TextScan.scan`: all facts.
-/

namespace FlowMigration.TextScan

open Text Pattern

/-! ## Patterns -/

def isQuote (c : Char) : Bool := c == '\'' || c == '"'

def isLineBlank (c : Char) : Bool := c == ' ' || c == '\t'

/-- A specifier between quotes, which is captured. -/
def specifier : Pattern :=
  sequence [.one isQuote, .capture (some1 true fun c => !isQuote c && c != '\n'), .one isQuote]

/-- A specifier after the word `from`. -/
def fromSpecifier : Pattern := sequence [word "from", blanks, specifier]

/-- The characters between `import` and `from`. -/
def isClausePart (c : Char) : Bool :=
  isWordPart c || isBlank c || ['$', '*', '\x7b', '\x7d', ','].contains c

/-- An import declaration at the start of a line, with or without a clause in front of its
`fromSpecifier`. -/
def staticImport : Pattern :=
  sequence [.lineStart, .many true isLineBlank, word "import", blanks1,
    .optional (.seq (.alt (word "type") (word "typeof")) blanks1),
    .optional (sequence [some1 false isClausePart, blanks1, word "from", blanks]), specifier]

/-- A re-export at the start of a line, which ends in a `fromSpecifier`. -/
def exportFrom : Pattern :=
  sequence [.lineStart, .many true isLineBlank, word "export", blanks1,
    .optional (.seq (word "type") blanks1),
    .alt
      (.seq (word "*") (.optional (sequence
        [blanks1, word "as", blanks1, some1 true fun c => isWordPart c || c == '$'])))
      (sequence [word "\x7b", .many true (· != '\x7d'), word "\x7d"]),
    blanks, fromSpecifier]

/-- A call of `require` or `import` with one specifier. -/
def callImport : Pattern :=
  sequence [.wordEdge, .alt (word "require") (word "import"), blanks, word "(", blanks, specifier,
    blanks, word ")"]

/-- A closing tag, a fragment or a tag that closes itself. -/
def jsxHint : Pattern :=
  .alt (.seq (word "</") (.one fun c => c.isAlpha))
    (.alt (word "<>")
      (sequence [.one fun c => isWordPart c || isQuote c || c == '\x7d', blanks, word "/>"]))

/-! ## Scanning -/

/-- The captures of the matches of `pattern` in `text`, with their offsets. -/
def captures (pattern : Pattern) (text : List Char) : List (Nat × List Char) :=
  (pattern.findAll text).filterMap (·.captured)

/-- Of neighbours with one offset the first one stays, so that no specifier is in `specifiers`
twice. -/
def dedupOffsets : List (Nat × List Char) → List (Nat × List Char)
  | [] => []
  | [x] => [x]
  | x :: y :: rest =>
    if x.1 = y.1 then dedupOffsets (x :: rest) else x :: dedupOffsets (y :: rest)
termination_by xs => xs.length

/-- The module specifiers of `text` with their offsets, in source order. -/
def specifiers (text : List Char) : List (Nat × List Char) :=
  dedupOffsets ((captures staticImport text ++ captures exportFrom text ++
    captures callImport text).mergeSort fun a b => a.1 ≤ b.1)

/-- What the text of the file at `path` says, without a parser: its `specifiers`, the pragma and a
`jsxHint`. -/
def scan (source path : String) : SourceOptions where
  isFlow := SourceOptions.isDeclaration path || Pragma.decide (Pragma.leadingComments source)
  hasJsx := jsxHint.occursIn source.toList
  imports := (specifiers source.toList).map fun s => String.ofList s.2
  lexical := true

end FlowMigration.TextScan
