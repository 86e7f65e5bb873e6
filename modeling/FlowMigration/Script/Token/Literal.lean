import FlowMigration.Text.Quoted

/-! # Texts between quotes

A text between quotes may write characters as escapes. A surrogate without a partner has no
character; a value with one marks it by the replacement character and four digits.

* `Literal.ofText`: the text in quotes that a text begins with.
-/

namespace FlowMigration.Script

/-- A part of a value: a character, or a surrogate without a partner. -/
inductive Piece where
  | char (c : Char)
  | surrogate (unit : Nat)
deriving DecidableEq, Repr

/-- What follows a backslash: the `pieces` it stands for and how many characters it takes up. -/
structure Escape where
  pieces : List Piece
  length : Nat
  faulty : Bool := false
deriving DecidableEq, Repr

namespace Escape

/-! ## Digits -/

/-- The value of the digit `c` to base 16. -/
def hexDigit? (c : Char) : Option Nat :=
  if c.isDigit then some (c.toNat - 48)
  else if 'a' ≤ c ∧ c ≤ 'f' then some (c.toNat - 87)
  else if 'A' ≤ c ∧ c ≤ 'F' then some (c.toNat - 55)
  else none

/-- The number that at most `count` digits to base 16 make, and how many there are. -/
def hexDigits : (count value taken : Nat) → List Char → Nat × Nat
  | 0, value, taken, _ => (value, taken)
  | _ + 1, value, taken, [] => (value, taken)
  | count + 1, value, taken, c :: rest =>
    match hexDigit? c with
    | some d => hexDigits count (value * 16 + d) (taken + 1) rest
    | none => (value, taken)

def isOctal (c : Char) : Bool := '0' ≤ c && c ≤ '7'

def octalValue (c : Char) : Nat := c.toNat - 48

/-! ## Code points -/

def isHighSurrogate (unit : Nat) : Bool := 0xD800 ≤ unit && unit ≤ 0xDBFF

def isLowSurrogate (unit : Nat) : Bool := 0xDC00 ≤ unit && unit ≤ 0xDFFF

/-- The piece of the code point `n`, a character or half of a pair. -/
def piece (n : Nat) : Piece :=
  if 0xD800 ≤ n && n ≤ 0xDFFF then .surrogate n else .char (Char.ofNat n)

/-- What stands for nothing, and is wrong: `length` characters that no escape is written with. -/
def wrong (length : Nat) : Escape := ⟨[], length, true⟩

/-- The second half of a pair, which starts with its own backslash, after a first half that
`codePoint` found. -/
def lowSurrogate? : List Char → Option Nat
  | '\\' :: 'u' :: rest =>
    let (unit, taken) := hexDigits 4 0 0 rest
    if taken = 4 ∧ isLowSurrogate unit then some unit else none
  | _ => none

/-- A code point, after the `u` of its escape: four digits, or any number of them in braces. -/
def codePoint : List Char → Escape
  | '\x7b' :: rest =>
    let (n, taken) := hexDigits rest.length 0 0 rest
    if taken ≠ 0 ∧ n ≤ 0x10FFFF ∧ rest[taken]? = some '\x7d' then ⟨[piece n], taken + 2, false⟩
    else wrong (taken + 1)
  | rest =>
    let (unit, taken) := hexDigits 4 0 0 rest
    if taken ≠ 4 then wrong taken
    else if isHighSurrogate unit then
      match lowSurrogate? (rest.drop 4) with
      | some low =>
        ⟨[.char (Char.ofNat (0x10000 + (unit - 0xD800) * 0x400 + (low - 0xDC00)))], 10, false⟩
      | none => ⟨[.surrogate unit], 4, false⟩
    else ⟨[piece unit], 4, false⟩

/-- The escape of a number to base 8, whose first digit is `c`: three digits up to `377`. -/
def octal (c : Char) (rest : List Char) : Escape :=
  let digits := c :: (rest.take (if c ≤ '3' then 2 else 1)).takeWhile isOctal
  ⟨[.char (Char.ofNat (digits.foldl (fun n d => n * 8 + octalValue d) 0))], digits.length, false⟩

def char (c : Char) : Escape := ⟨[.char c], 1, false⟩

/-- What follows a backslash inside quotes: a `codePoint`, an `octal` or a letter. -/
def ofText : List Char → Escape
  | [] => wrong 0
  | '\r' :: '\n' :: _ => ⟨[], 2, false⟩
  | c :: rest =>
    if c == '\n' || c == '\r' || c.toNat == 0x2028 || c.toNat == 0x2029 then ⟨[], 1, false⟩
    else
      match c with
      | 'b' => char '\x08'
      | 'f' => char '\x0c'
      | 'n' => char '\n'
      | 'r' => char '\r'
      | 't' => char '\t'
      | 'v' => char '\x0b'
      | 'x' =>
        let (n, taken) := hexDigits 2 0 0 rest
        if taken = 2 then ⟨[.char (Char.ofNat n)], 3, false⟩ else wrong (taken + 1)
      | 'u' =>
        let point := codePoint rest
        { point with length := point.length + 1 }
      | c => if isOctal c then octal c rest else char c

end Escape

/-- A text between quotes: its `value` and how many characters it takes up. -/
structure Literal where
  value : String
  length : Nat
  faulty : Bool
deriving DecidableEq, Repr

namespace Literal

/-- Stands for what has no character, in a value that is `marked`. -/
def replacement : Char := Char.ofNat 0xFFFD

/-- Four digits to base 16, those of `n`. -/
def fourDigits (n : Nat) : List Char :=
  [n / 0x1000, n / 0x100, n / 0x10, n].map fun d => Text.hexDigit (d % 16)

/-- How a `Piece` is written in a value that has surrogates without a partner. -/
def marked : Piece → List Char
  | .char c => if c == replacement then replacement :: fourDigits 0xFFFD else [c]
  | .surrogate unit => replacement :: fourDigits unit

def plain : Piece → List Char
  | .char c => [c]
  | .surrogate _ => []

def isLone : Piece → Bool
  | .char _ => false
  | .surrogate _ => true

def valueOf (pieces : List Piece) : String :=
  String.ofList (if pieces.any isLone then pieces.flatMap marked else pieces.flatMap plain)

/-- Reads up to the closing quote; `skip` characters belong to an escape, and the pieces found are
listed backwards. Nothing if the line or the text ends first. -/
def scan (quote : Char) : (skip : Nat) → List Piece → (length : Nat) → (faulty : Bool) →
    List Char → Option Literal
  | _, _, _, _, [] => none
  | skip + 1, pieces, length, faulty, _ :: rest => scan quote skip pieces (length + 1) faulty rest
  | 0, pieces, length, faulty, c :: rest =>
    if c == quote then some ⟨valueOf pieces.reverse, length + 1, faulty⟩
    else if c == '\\' then
      let escape := Escape.ofText rest
      scan quote escape.length (escape.pieces.reverse ++ pieces) (length + 1)
        (faulty || escape.faulty) rest
    else if c == '\n' || c == '\r' then none
    else scan quote 0 (.char c :: pieces) (length + 1) faulty rest

/-- The literal that a text begins with, up to the quote that it opened with (`scan`). -/
def ofText : List Char → Option Literal
  | '"' :: rest => scan '"' 0 [] 1 false rest
  | '\'' :: rest => scan '\'' 0 [] 1 false rest
  | _ => none

theorem scan_length {quote : Char} {cs : List Char} :
    ∀ {skip : Nat} {pieces : List Piece} {length : Nat} {faulty : Bool} {literal : Literal},
      scan quote skip pieces length faulty cs = some literal → length < literal.length := by
  induction cs with
  | nil => intro skip pieces length faulty literal h; simp [scan] at h
  | cons c rest ih =>
    intro skip pieces length faulty literal h
    cases skip with
    | succ skip =>
      rw [scan] at h
      exact Nat.lt_of_succ_lt (ih h)
    | zero =>
      rw [scan] at h
      split at h
      · simp only [Option.some.injEq] at h
        subst h
        exact Nat.lt_succ_self length
      · split at h
        · exact Nat.lt_of_succ_lt (ih h)
        · split at h
          · simp at h
          · exact Nat.lt_of_succ_lt (ih h)

theorem ofText_length {cs : List Char} {literal : Literal} (h : ofText cs = some literal) :
    0 < literal.length := by
  unfold ofText at h
  split at h
  · exact Nat.lt_of_succ_lt (scan_length h)
  · exact Nat.lt_of_succ_lt (scan_length h)
  · simp at h

end Literal

end FlowMigration.Script
