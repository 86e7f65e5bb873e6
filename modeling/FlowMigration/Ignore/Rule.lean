import FlowMigration.Glob
import FlowMigration.Text.Category

/-! # Ignore rules

The lines of a file of ignore rules, and what a list of rules decides about a path: the last rule
that matches it wins.

* `IgnoreRule.parse`: reads a line.
* `IgnoreRule.decide`: the verdict of a list of rules.
-/

namespace FlowMigration

/-- What rules say about a path, as `IgnoreRule.decide` puts it. -/
inductive Verdict where
  | undecided
  | ignored
  /-- A negated rule takes the path back in. -/
  | kept
deriving DecidableEq, Repr

/-- The `first` verdict, or the `second` one where the first leaves it open. -/
def Verdict.orElse (first second : Verdict) : Verdict :=
  match first with
  | .undecided => second
  | decided => decided

/-- A line whose pattern `Glob.parse` cannot read. -/
structure BadPattern where
  line : String
  cause : GlobError
deriving DecidableEq, Repr

def BadPattern.message (bad : BadPattern) : String :=
  "error parsing glob '" ++ bad.line ++ "': " ++ bad.cause.message

/-- One rule: the paths its `glob` is about, relative to the directory it stands for. -/
structure IgnoreRule where
  glob : Glob
  negated : Bool
  onlyDirs : Bool
deriving DecidableEq, Repr

namespace IgnoreRule

/-- The `line` without the blanks at its end, unless the last of them is escaped. -/
def trimLine (line : List Char) : List Char :=
  if line.reverse.take 2 = [' ', '\\'] then line
  else (line.reverse.dropWhile Text.isBlank).reverse

/-- How a line reads before its `pattern` does: negation, a slash in front, a slash at the end. -/
structure Marks where
  negated : Bool
  anchored : Bool
  onlyDirs : Bool
  pattern : List Char

/-- Takes the mark of a directory off the end of `pattern`, and an escape in front of it. -/
def stripDirSlash (pattern : List Char) : Bool × List Char :=
  match pattern.reverse with
  | '/' :: '\\' :: more => (true, more.reverse)
  | '/' :: more => (true, more.reverse)
  | _ => (false, pattern)

def marks (line : List Char) : Marks :=
  match line with
  | '\\' :: '!' :: rest =>
    let (dirs, pattern) := stripDirSlash ('!' :: rest)
    ⟨false, false, dirs, pattern⟩
  | '\\' :: '#' :: rest =>
    let (dirs, pattern) := stripDirSlash ('#' :: rest)
    ⟨false, false, dirs, pattern⟩
  | _ =>
    let negated := line.head? = some '!'
    let rest := if negated then line.tail else line
    let anchored := rest.head? = some '/'
    let (dirs, pattern) := stripDirSlash (if anchored then rest.tail else rest)
    ⟨negated, anchored, dirs, pattern⟩

/-- The pattern that the rule of `m` matches whole paths with: one without a slash may stand below
any directory, and one that ends in two stars stands for what is inside. -/
def fullPattern (m : Marks) : List Char :=
  let anywhere :=
    if m.anchored || m.pattern.contains '/' || m.pattern = ['*', '*'] then m.pattern
    else '*' :: '*' :: '/' :: m.pattern
  if anywhere.reverse.take 3 = ['*', '*', '/'] then anywhere ++ ['/', '*'] else anywhere

/-- Reads `line`; blank lines and comments hold no rule. -/
def parse (lenient : Bool) (line : String) : Except BadPattern (Option IgnoreRule) :=
  if line.toList.head? = some '#' then .ok none
  else
    let trimmed := trimLine line.toList
    if trimmed = [] then .ok none
    else
      let m := marks trimmed
      match Glob.parse lenient (String.ofList (fullPattern m)) with
      | .ok glob => .ok (some ⟨glob, m.negated, m.onlyDirs⟩)
      | .error cause => .error ⟨String.ofList trimmed, cause⟩

def verdict (rule : IgnoreRule) : Verdict :=
  if rule.negated then .kept else .ignored

/-- Whether `rule` is about `path`, of a directory if `isDir`. -/
def applies (rule : IgnoreRule) (path : String) (isDir : Bool) : Bool :=
  (!rule.onlyDirs || isDir) && rule.glob.matches path

/-- What the list `rules` says about `path`: the last rule that `applies` to it decides. -/
def decide (rules : List IgnoreRule) (path : String) (isDir : Bool) : Verdict :=
  match rules.reverse.find? fun rule => rule.applies path isDir with
  | some rule => rule.verdict
  | none => .undecided

end IgnoreRule

end FlowMigration
