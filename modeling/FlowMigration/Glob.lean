/-! # Globs

Patterns for paths, as files of ignore rules and the settings of a migration write them.

A pattern is read into its *expansions*, one for every way to choose from its groups `{a,b}`; a
path matches if one of them matches it. Matching goes byte by byte: `?` and a class `[a-z]` stand
for one byte each.

* `Glob.parse`: reads a pattern.
* `Glob.matches`: whether a path matches.
-/

namespace FlowMigration

/-- Why `Glob.parse` takes a text for no pattern. -/
inductive GlobError where
  | unclosedClass
  | invalidRange (first last : Char)
  | unopenedGroup
  | unclosedGroup
  | danglingEscape
deriving DecidableEq, Repr

def GlobError.message : GlobError → String
  | .unclosedClass => "unclosed character class; missing ']'"
  | .invalidRange first last =>
    "invalid range; '" ++ first.toString ++ "' > '" ++ last.toString ++ "'"
  | .unopenedGroup =>
    "unopened alternate group; missing '\x7b' (maybe escape '\x7d' with '[\x7d]'?)"
  | .unclosedGroup =>
    "unclosed alternate group; missing '\x7d' (maybe escape '\x7b' with '[\x7b]'?)"
  | .danglingEscape => "dangling '\\'"

/-- One element of an expansion of a `Glob`. -/
inductive GlobToken where
  | literal (char : Char)
  /-- Any byte but a slash. -/
  | anyByte
  /-- Any bytes but slashes. -/
  | anyName
  /-- Nothing, or whatever ends in a slash. -/
  | leadingDirs
  /-- A slash and whatever follows it. -/
  | trailing
  /-- A slash, or whatever begins and ends in one. -/
  | innerDirs
  /-- The whole path, whatever it is. -/
  | everything
  /-- One byte among (or, negated, not among) the ranges. -/
  | oneOf (negated : Bool) (ranges : List (Char × Char))
deriving DecidableEq, Repr

/-- A pattern for paths: one list of `GlobToken`s for each way to choose from its groups. -/
structure Glob where
  expansions : List (List GlobToken)
deriving DecidableEq, Repr

namespace Glob

/-! ## Reading a pattern -/

/-- A branch of a group, or the pattern itself, as far as it has been read: the expansions of what
precedes its last group, and the tokens after that, the latest first. -/
structure Branch where
  before : List (List GlobToken) := [[]]
  tokens : List GlobToken := []
  grouped : Bool := false

namespace Branch

def push (b : Branch) (t : GlobToken) : Branch := { b with tokens := t :: b.tokens }

def isEmpty (b : Branch) : Bool := b.tokens.isEmpty && !b.grouped

def expansions (b : Branch) : List (List GlobToken) :=
  b.before.map (· ++ b.tokens.reverse)

/-- Every expansion so far goes on with every one of `choices`. -/
def pushGroup (b : Branch) (choices : List (List GlobToken)) : Branch where
  before := b.expansions.flatMap fun front => choices.map (front ++ ·)
  tokens := []
  grouped := true

end Branch

/-- A group that is still open: what precedes it, and its `Branch`es before the current one, the
latest first. -/
structure OpenGroup where
  outer : Branch
  closed : List Branch

/-- The expansions of a closed group of `branches`. Those that stand for the empty text are left
out; a group of nothing else is empty itself. -/
def groupChoices (branches : List Branch) : List (List GlobToken) :=
  let choices := (branches.map Branch.expansions).filter (· ≠ [[]])
  if choices.isEmpty then [[]] else choices.flatten

/-- Reads the ranges of a class up to its closing bracket. `first` holds before the first
character, `dashed` after a dash that may make a range of the latest character and the next one.
The ranges are kept the latest first; nothing is left if the class is not closed. -/
def classRanges (first dashed : Bool) (ranges : List (Char × Char)) :
    List Char → Except GlobError (Option (List (Char × Char) × List Char))
  | [] => .ok none
  | c :: rest =>
    if c = ']' ∧ !first then
      .ok (some ((if dashed then ('-', '-') :: ranges else ranges), rest))
    else if dashed then
      match ranges with
      | (low, _) :: older =>
        if c < low then .error (.invalidRange low c)
        else classRanges false false ((low, c) :: older) rest
      | [] => classRanges false false [(c, c)] rest
    else if c = '-' ∧ !first then classRanges false true ranges rest
    else classRanges false false ((c, c) :: ranges) rest

theorem classRanges_length {first dashed : Bool} {ranges : List (Char × Char)} {cs : List Char}
    {found : List (Char × Char)} {rest : List Char}
    (h : classRanges first dashed ranges cs = .ok (some (found, rest))) :
    rest.length < cs.length := by
  induction cs generalizing first dashed ranges with
  | nil => simp [classRanges] at h
  | cons c cs ih =>
    unfold classRanges at h
    split at h
    · simp only [Except.ok.injEq, Option.some.injEq, Prod.mk.injEq] at h
      obtain ⟨-, rfl⟩ := h
      simp
    · split at h
      · split at h
        · split at h
          · simp at h
          · exact Nat.lt_succ_of_lt (ih h)
        · exact Nat.lt_succ_of_lt (ih h)
      · split at h
        · exact Nat.lt_succ_of_lt (ih h)
        · exact Nat.lt_succ_of_lt (ih h)

/-- Puts `t` in the place of the slash that was read last, unless whole directories stand there
already. -/
def Branch.replaceSlash (b : Branch) (t : GlobToken) : Branch :=
  match b.tokens with
  | .leadingDirs :: _ => b
  | .trailing :: _ => b
  | _ :: older => { b with tokens := t :: older }
  | [] => b.push t

/-- What two stars stand for after `before`, the character in front of them, and what is left to
read: whole directories where slashes or the ends of the branch surround them, two stars
otherwise. -/
def doubleStar (inGroup : Bool) (before : Option Char) (b : Branch) (rest : List Char) :
    Branch × List Char × Char :=
  let two := (b.push .anyName).push .anyName
  if b.isEmpty then
    match rest with
    | [] => (b.push .leadingDirs, [], '*')
    | c :: more => if c = '/' then (b.push .leadingDirs, more, '/') else (two, rest, '*')
  else if before = some '/' ∨ (inGroup ∧ (before = some ',' ∨ before = some '\x7b')) then
    match rest with
    | [] => (b.replaceSlash .trailing, [], '*')
    | c :: more =>
      if c = '/' then (b.replaceSlash .innerDirs, more, '/')
      else if inGroup ∧ (c = ',' ∨ c = '\x7d') then (b.replaceSlash .trailing, rest, '*')
      else (two, rest, '*')
  else (two, rest, '*')

theorem doubleStar_length (inGroup : Bool) (before : Option Char) (b : Branch) (rest : List Char) :
    (doubleStar inGroup before b rest).2.1.length ≤ rest.length := by
  unfold doubleStar
  grind

/-- Reads a pattern from left to right. `lenient` takes the bracket of a class that is never closed
for itself, and so every bracket after it (`brackets` is false then); `before` is the character in
front. -/
def parseFrom (lenient brackets : Bool) (before : Option Char) (open_ : List OpenGroup)
    (b : Branch) (cs : List Char) : Except GlobError (List OpenGroup × Branch) :=
  match cs with
  | [] => .ok (open_, b)
  | '?' :: rest => parseFrom lenient brackets (some '?') open_ (b.push .anyByte) rest
  | '*' :: '*' :: rest =>
    have := doubleStar_length (!open_.isEmpty) before b rest
    parseFrom lenient brackets (some (doubleStar (!open_.isEmpty) before b rest).2.2) open_
      (doubleStar (!open_.isEmpty) before b rest).1 (doubleStar (!open_.isEmpty) before b rest).2.1
  | '*' :: rest => parseFrom lenient brackets (some '*') open_ (b.push .anyName) rest
  | '\x7b' :: rest =>
    parseFrom lenient brackets (some '\x7b') (⟨b, []⟩ :: open_) {} rest
  | '\x7d' :: rest =>
    match open_ with
    | [] => .error .unopenedGroup
    | group :: open_ =>
      parseFrom lenient brackets (some '\x7d') open_
        (group.outer.pushGroup (groupChoices (group.closed.reverse ++ [b]))) rest
  | ',' :: rest =>
    match open_ with
    | [] => parseFrom lenient brackets (some ',') [] (b.push (.literal ',')) rest
    | group :: open_ =>
      parseFrom lenient brackets (some ',') ({ group with closed := b :: group.closed } :: open_)
        {} rest
  | '\\' :: rest =>
    match rest with
    | [] => .error .danglingEscape
    | c :: rest => parseFrom lenient brackets (some c) open_ (b.push (.literal c)) rest
  | '[' :: rest =>
    if brackets then
      let negated := rest.head? = some '!' ∨ rest.head? = some '^'
      match h : classRanges true false [] (if negated then rest.tail else rest) with
      | .error e => .error e
      | .ok none =>
        if lenient then parseFrom lenient false (some '[') open_ (b.push (.literal '[')) rest
        else .error .unclosedClass
      | .ok (some (ranges, more)) =>
        have : more.length ≤ rest.length := by
          have := classRanges_length h
          grind
        parseFrom lenient brackets (some ']') open_ (b.push (.oneOf negated ranges.reverse)) more
    else parseFrom lenient brackets (some '[') open_ (b.push (.literal '[')) rest
  | c :: rest => parseFrom lenient brackets (some c) open_ (b.push (.literal c)) rest
termination_by cs.length

/-- Reads a pattern. With `lenient` a bracket that no class follows stands for itself. -/
def parse (lenient : Bool) (pattern : String) : Except GlobError Glob :=
  match parseFrom lenient true none [] {} pattern.toList with
  | .error e => .error e
  | .ok (_ :: _, _) => .error .unclosedGroup
  | .ok ([], b) =>
    .ok ⟨if b.grouped = false ∧ b.tokens = [.leadingDirs] then [[.everything]] else b.expansions⟩

/-! ## Matching -/

def slash : UInt8 := 47

/-- The bytes of `text` in UTF-8, which patterns are matched with. -/
def bytes (text : String) : List UInt8 := text.toUTF8.toList

/-- The bytes after each slash of a path, for `GlobToken`s that end in one. -/
def afterSlashes : List UInt8 → List (List UInt8)
  | [] => []
  | b :: rest => if b = slash then rest :: afterSlashes rest else afterSlashes rest

/-- What is left of a path after some bytes of its first name, the longest rest first. -/
def afterName : List UInt8 → List (List UInt8)
  | [] => [[]]
  | b :: rest => if b = slash then [b :: rest] else (b :: rest) :: afterName rest

/-- All endings of a path, the whole of it and the empty one included. -/
def endings : List UInt8 → List (List UInt8)
  | [] => [[]]
  | b :: rest => (b :: rest) :: endings rest

/-- What is left of `path` after `front`, if it begins so. -/
def dropFront : List UInt8 → List UInt8 → Option (List UInt8)
  | [], path => some path
  | _ :: _, [] => none
  | f :: front, b :: path => if f = b then dropFront front path else none

/-- The ranges of bytes that `range` stands for: its two ends are written out byte by byte with a
dash between them, and the dash joins only the bytes beside it. -/
def byteRanges (range : Char × Char) : List (UInt8 × UInt8) :=
  let single (bs : List UInt8) := bs.map fun b => (b, b)
  if range.1 = range.2 then single (bytes range.1.toString)
  else
    let low := bytes range.1.toString
    let high := bytes range.2.toString
    match low.getLast?, high with
    | some l, h :: more => single low.dropLast ++ (l, h) :: single more
    | _, _ => []

/-- Whether the byte `b` is in the class of `ranges`, or outside it if it is `negated`. -/
def classHolds (negated : Bool) (ranges : List (Char × Char)) (b : UInt8) : Bool :=
  (ranges.flatMap byteRanges).any (fun r => r.1 ≤ b && b ≤ r.2) != negated

/-- Whether an expansion matches all of a path, given by its `bytes`. -/
def matchTokens : List GlobToken → List UInt8 → Bool
  | [], path => path.isEmpty
  | .literal c :: ts, path =>
    match dropFront (bytes c.toString) path with
    | some rest => matchTokens ts rest
    | none => false
  | .anyByte :: ts, path =>
    match path with
    | b :: rest => b != slash && matchTokens ts rest
    | [] => false
  | .anyName :: ts, path => (afterName path).any (matchTokens ts)
  | .leadingDirs :: ts, path => matchTokens ts path || (afterSlashes path).any (matchTokens ts)
  | .trailing :: ts, path =>
    match path with
    | b :: rest => b == slash && (endings rest).any (matchTokens ts)
    | [] => false
  | .innerDirs :: ts, path =>
    match path with
    | b :: rest =>
      b == slash && (matchTokens ts rest || (afterSlashes rest).any (matchTokens ts))
    | [] => false
  | .everything :: ts, path => (endings path).any (matchTokens ts)
  | .oneOf negated ranges :: ts, path =>
    match path with
    | b :: rest => classHolds negated ranges b && matchTokens ts rest
    | [] => false

/-- Whether `path` matches one of the expansions of `glob`. -/
def «matches» (glob : Glob) (path : String) : Bool :=
  glob.expansions.any fun ts => matchTokens ts (bytes path)

end Glob

end FlowMigration
