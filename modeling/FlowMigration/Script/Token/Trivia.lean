import FlowMigration.Text.Category

/-! # What stands between tokens

Blanks, line ends and comments.

* `Trivia.ofText`: what a text begins with before its first token.
-/

namespace FlowMigration.Script

/-- The characters that end a line. -/
def isLineBreak (c : Char) : Bool :=
  c == '\n' || c == '\r' || c.toNat == 0x2028 || c.toNat == 0x2029

/-- Blanks inside a line, where `isLineBreak` does not hold. -/
def isSpace (c : Char) : Bool :=
  c == ' ' || c == '\t' || c.toNat == 0x0B || c.toNat == 0x0C || c.toNat == 0x85 ||
    c.toNat == 0x200B || Text.isSpaceSeparator c

/-- A stretch without tokens: its `length` and what is in it. -/
structure Trivia where
  length : Nat := 0
  /-- A line ends in it. -/
  newline : Bool := false
  /-- The comments in it, the last one first. -/
  comments : List (List Char) := []
deriving DecidableEq, Repr

namespace Trivia

/-- Where `scan` is: between comments, or inside one whose characters are listed backwards. -/
inductive Position where
  | between
  | line (text : List Char)
  | block (text : List Char)

def take (trivia : Trivia) (n : Nat) : Trivia := { trivia with length := trivia.length + n }

def endLine (trivia : Trivia) : Trivia := { trivia with newline := true }

/-- Adds the comment `text`, whose characters are listed backwards. -/
def addComment (trivia : Trivia) (text : List Char) : Trivia :=
  { trivia with comments := text.reverse :: trivia.comments }

/-- Goes on from a `Position`. A block that is never closed is no comment and takes up the rest. -/
def scan : Position → Trivia → List Char → Trivia
  | .between, t, '/' :: '/' :: rest => scan (.line ['/', '/']) (t.take 2) rest
  | .between, t, '/' :: '*' :: rest => scan (.block ['*', '/']) (t.take 2) rest
  | .between, t, c :: rest =>
    if isLineBreak c then scan .between (t.take 1).endLine rest
    else if isSpace c then scan .between (t.take 1) rest
    else t
  | .line text, t, c :: rest =>
    if isLineBreak c then scan .between ((t.take 1).endLine.addComment text) rest
    else scan (.line (c :: text)) (t.take 1) rest
  | .block text, t, '*' :: '/' :: rest =>
    scan .between ((t.take 2).addComment ('/' :: '*' :: text)) rest
  | .block text, t, c :: rest =>
    scan (.block (c :: text)) (if isLineBreak c then (t.take 1).endLine else t.take 1) rest
  | .between, t, [] => t
  | .line text, t, [] => t.addComment text
  | .block _, t, [] => t

/-- What a text begins with before its first token: the `Trivia` that `scan` finds from its
start. -/
def ofText (text : List Char) : Trivia := scan .between {} text

end Trivia

end FlowMigration.Script
