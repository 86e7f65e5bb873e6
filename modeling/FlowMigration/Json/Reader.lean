import FlowMigration.Json.Fault

/-! # Reading JSON texts

Readers take a value off the front of a text and leave the rest. Each level of arrays and objects
uses up one unit of `depth`.

* `Json.readValue`: reads any value.
* `Json.skipValue`: reads past a value without keeping it; numbers may be out of range then, escapes
  may stand alone and levels do not count.
* `Json.parse`: reads a text that is one value.
-/

namespace FlowMigration

/-- Takes a value off the front of a text, or gives the `JsonFault` that stands in its way. -/
abbrev JsonReader (α : Type) := List Char → Except JsonFault (α × List Char)

namespace Json

/-- How deep arrays and objects may be nested for `readValue`. -/
def maxDepth : Nat := 128

def isBlank (c : Char) : Bool := c = ' ' || c = '\n' || c = '\t' || c = '\r'

def skipBlanks (cs : List Char) : List Char := cs.dropWhile isBlank

/-! ## Words -/

/-- Reads the rest of `null`, `true` or `false`. -/
def readWord : List Char → JsonReader Unit
  | [], cs => .ok ((), cs)
  | _ :: _, [] => .error (.here .endInValue [])
  | w :: word, c :: rest =>
    if w = c then readWord word rest else .error (.next .expectedWord (c :: rest))

/-! ## Numbers -/

def digit? (c : Char) : Option Nat :=
  if c.isDigit then some (c.toNat - 48) else none

/-- The greatest number of 64 bits, to which `takeDigits` reads. -/
def maxNatural : Nat := 18446744073709551615

/-- The greatest number that fits into 64 bits with a minus sign, for `integer`. -/
def maxNegative : Nat := 9223372036854775808

/-- The greatest exponent that `readExponent` reads, a number of 31 bits. -/
def maxExponent : Nat := 2147483647

/-- The double nearest to `n`, a number of 64 bits. -/
def doubleOfNat (n : Nat) : Float := (UInt64.ofNat n).toFloat

/-- The power of ten with the exponent `n`, which a double holds. -/
def powerOfTen (n : Nat) : Float := Float.ofScientific 1 false n

/-- Scales `f` by a power of ten: at one stroke if the power is a double, in strokes of `10 ^ 308`
downwards before. Nothing if the result has no finite magnitude. -/
def scale : Nat → Float → Int → Option Float
  | 0, f, _ => some f
  | fuel + 1, f, exponent =>
    if exponent.natAbs ≤ 308 then
      if exponent ≥ 0 then
        let scaled := f * powerOfTen exponent.toNat
        if scaled.isInf then none else some scaled
      else some (f / powerOfTen exponent.natAbs)
    else if f == 0 then some f
    else if exponent ≥ 0 then none
    else scale fuel (f / powerOfTen 308) (exponent + 308)

/-- The double of `significand` and a power of ten with this `exponent`, by `scale`. -/
def double (positive : Bool) (significand : Nat) (exponent : Int) (rest : List Char) :
    Except JsonFault (JsonNumber × List Char) :=
  match scale (exponent.natAbs / 308 + 2) (doubleOfNat significand) exponent with
  | some f => .ok (.double (if positive then f else -f).toBits, rest)
  | none => .error (.here .numberOutOfRange rest)

def skipDigits (cs : List Char) : List Char := cs.dropWhile Char.isDigit

/-- Reads digits as long as the number they make fits into `limit`: the number, how many digits
were taken, and the rest. -/
def takeDigits (limit : Nat) : Nat → Nat → List Char → Nat × Nat × List Char
  | value, count, [] => (value, count, [])
  | value, count, c :: rest =>
    match digit? c with
    | some d =>
      if value * 10 + d > limit then (value, count, c :: rest)
      else takeDigits limit (value * 10 + d) (count + 1) rest
    | none => (value, count, c :: rest)

/-- Reads what follows the `e` of an exponent. -/
def readExponent (positive : Bool) (significand : Nat) (start : Int) :
    JsonReader JsonNumber := fun cs =>
  let (up, cs) :=
    match cs with
    | '+' :: rest => (true, rest)
    | '-' :: rest => (false, rest)
    | cs => (true, cs)
  match cs with
  | [] => .error (.here .endInValue [])
  | c :: rest =>
    match digit? c with
    | none => .error (.next .invalidNumber (c :: rest))
    | some d =>
      let (value, _, rest) := takeDigits maxExponent d 0 rest
      match rest with
      | c :: more =>
        if c.isDigit then
          if significand ≠ 0 ∧ up then .error (.here .numberOutOfRange more)
          else
            .ok (.double (if positive then (0.0 : Float) else -0.0).toBits, skipDigits more)
        else double positive significand (if up then start + value else start - value) rest
      | [] => double positive significand (if up then start + value else start - value) rest

/-- Reads the exponent of a number whose digits have been read, if there is one (`readExponent`). -/
def finishNumber (positive : Bool) (significand : Nat) (exponent : Int) :
    JsonReader JsonNumber := fun cs =>
  match cs with
  | 'e' :: rest => readExponent positive significand exponent rest
  | 'E' :: rest => readExponent positive significand exponent rest
  | cs => double positive significand exponent cs

/-- Reads what follows the point of a number. Digits that no longer fit the `significand` are passed
over. -/
def readFraction (positive : Bool) (significand : Nat) (exponent : Int) :
    JsonReader JsonNumber := fun cs =>
  let (value, count, rest) := takeDigits maxNatural significand 0 cs
  match rest with
  | c :: more =>
    if c.isDigit then finishNumber positive value (exponent - count) (skipDigits more)
    else if count = 0 then .error (.next .invalidNumber rest)
    else finishNumber positive value (exponent - count) rest
  | [] =>
    if count = 0 then .error (.next .endInValue [])
    else finishNumber positive value (exponent - count) []

/-- Reads a number whose digits are too many to fit the `significand`. -/
def readLong (positive : Bool) (significand : Nat) : JsonReader JsonNumber := fun cs =>
  let rest := skipDigits cs
  let exponent : Int := cs.length - rest.length
  match rest with
  | '.' :: more => readFraction positive significand exponent more
  | rest => finishNumber positive significand exponent rest

/-- The number with the magnitude `value` and a sign; below the integers of 64 bits there are only
doubles, and there is no integer for a negative zero. -/
def integer (positive : Bool) (value : Nat) : JsonNumber :=
  if positive then .natural value
  else if value = 0 ∨ value > maxNegative then .double (-(doubleOfNat value)).toBits
  else .negative value

/-- Reads what follows the digits of the integer `value`: nothing, a fraction or an exponent. -/
def finishInteger (positive : Bool) (value : Nat) : JsonReader JsonNumber := fun cs =>
  match cs with
  | '.' :: more => readFraction positive value 0 more
  | 'e' :: more => readExponent positive value 0 more
  | 'E' :: more => readExponent positive value 0 more
  | rest => .ok (integer positive value, rest)

/-- Reads a number after its sign, which `positive` tells. -/
def readNumber (positive : Bool) : JsonReader JsonNumber := fun cs =>
  match cs with
  | [] => .error (.here .endInValue [])
  | '0' :: rest =>
    match rest with
    | c :: _ =>
      if c.isDigit then .error (.next .invalidNumber rest) else finishInteger positive 0 rest
    | [] => finishInteger positive 0 []
  | c :: rest =>
    match digit? c with
    | none => .error (.next .invalidNumber (c :: rest))
    | some d =>
      let (value, _, rest) := takeDigits maxNatural d 0 rest
      match rest with
      | c :: _ =>
        if c.isDigit then readLong positive value rest else finishInteger positive value rest
      | [] => finishInteger positive value []

/-! ## Strings -/

def hexValue? (c : Char) : Option Nat :=
  if c.isDigit then some (c.toNat - 48)
  else if 'a' ≤ c ∧ c ≤ 'f' then some (c.toNat - 87)
  else if 'A' ≤ c ∧ c ≤ 'F' then some (c.toNat - 55)
  else none

/-- Reads the four digits of an escape by number, for `readUnicode`. -/
def readHex : JsonReader Nat := fun cs =>
  match cs with
  | a :: b :: c :: d :: rest =>
    match hexValue? a, hexValue? b, hexValue? c, hexValue? d with
    | some a, some b, some c, some d => .ok (a * 4096 + b * 256 + c * 16 + d, rest)
    | _, _, _, _ => .error ⟨.invalidEscape, cs, 4⟩
  | cs =>
    if JsonFault.byteLength cs < 4 then .error (.here .endInString [])
    else .error ⟨.invalidEscape, cs, 4⟩

def isLeading (n : Nat) : Bool := 0xD800 ≤ n && n ≤ 0xDBFF

def isTrailing (n : Nat) : Bool := 0xDC00 ≤ n && n ≤ 0xDFFF

/-- Reads an escape by number after its `u`: two of them where the first is the leading half of a
pair. -/
def readUnicode : JsonReader Char := fun cs => do
  let (n, rest) ← readHex cs
  if isTrailing n then .error (.here .loneSurrogate rest)
  else if !isLeading n then .ok (Char.ofNat n, rest)
  else
    match rest with
    | [] => .error (.here .endInString [])
    | '\\' :: [] => .error (.here .endInString [])
    | '\\' :: 'u' :: rest => do
      let (m, rest) ← readHex rest
      if isTrailing m then
        .ok (Char.ofNat ((n - 0xD800) * 0x400 + (m - 0xDC00) + 0x10000), rest)
      else .error (.here .loneSurrogate rest)
    | '\\' :: rest => .error (.next .endOfHexEscape rest)
    | rest => .error (.next .endOfHexEscape rest)

/-- Reads an escape after its backslash, by number or by letter (`readUnicode`). -/
def readEscape : JsonReader Char := fun cs =>
  match cs with
  | [] => .error (.here .endInString [])
  | '"' :: rest => .ok ('"', rest)
  | '\\' :: rest => .ok ('\\', rest)
  | '/' :: rest => .ok ('/', rest)
  | 'b' :: rest => .ok ('\x08', rest)
  | 'f' :: rest => .ok ('\x0c', rest)
  | 'n' :: rest => .ok ('\n', rest)
  | 'r' :: rest => .ok ('\r', rest)
  | 't' :: rest => .ok ('\t', rest)
  | 'u' :: rest => readUnicode rest
  | c :: rest => .error (.next .invalidEscape (c :: rest))

/-- Reads the characters of a string after its first quote; the number bounds how many come up. -/
def readChars : Nat → JsonReader (List Char)
  | 0, cs => .error (.here .endInString cs)
  | fuel + 1, cs =>
    match cs with
    | [] => .error (.here .endInString [])
    | '"' :: rest => .ok ([], rest)
    | '\\' :: rest => do
      let (c, rest) ← readEscape rest
      let (more, rest) ← readChars fuel rest
      .ok (c :: more, rest)
    | c :: rest =>
      if c.toNat < 32 then .error (.next .controlCharacter (c :: rest))
      else do
        let (more, rest) ← readChars fuel rest
        .ok (c :: more, rest)

/-- Reads a string after its first quote, by `readChars`. -/
def readString : JsonReader String := fun cs => do
  let (chars, rest) ← readChars (cs.length + 1) cs
  .ok (String.ofList chars, rest)

/-! ## Separators -/

/-- Reads up to the next item of an array: whether there is one. In front of all but the `first` one
stands a comma. -/
def nextItem (first : Bool) : JsonReader Bool := fun cs =>
  match skipBlanks cs with
  | [] => .error (.next .endInList [])
  | ']' :: rest => .ok (false, ']' :: rest)
  | c :: rest =>
    if first then .ok (true, c :: rest)
    else if c = ',' then
      match skipBlanks rest with
      | [] => .error (.next .endInValue [])
      | ']' :: more => .error (.next .trailingComma (']' :: more))
      | more => .ok (true, more)
    else .error (.next .expectedListEnd (c :: rest))

/-- Reads the end of an array. -/
def endList : JsonReader Unit := fun cs =>
  match skipBlanks cs with
  | [] => .error (.next .endInList [])
  | ']' :: rest => .ok ((), rest)
  | ',' :: rest =>
    match skipBlanks rest with
    | ']' :: more => .error (.next .trailingComma (']' :: more))
    | more => .error (.next .trailingCharacters more)
  | rest => .error (.next .trailingCharacters rest)

/-- Reads up to the next key of an object, its quote included: whether there is one. In front of all
but the `first` one stands a comma. -/
def nextKey (first : Bool) : JsonReader Bool := fun cs =>
  match skipBlanks cs with
  | [] => .error (.next .endInObject [])
  | '\x7d' :: rest => .ok (false, '\x7d' :: rest)
  | c :: rest =>
    if first then
      if c = '"' then .ok (true, rest) else .error (.next .keyNotString (c :: rest))
    else if c = ',' then
      match skipBlanks rest with
      | [] => .error (.next .endInValue [])
      | '"' :: more => .ok (true, more)
      | '\x7d' :: more => .error (.next .trailingComma ('\x7d' :: more))
      | more => .error (.next .keyNotString more)
    else .error (.next .expectedObjectEnd (c :: rest))

/-- Reads the colon after a key. -/
def readColon : JsonReader Unit := fun cs =>
  match skipBlanks cs with
  | [] => .error (.next .endInObject [])
  | ':' :: rest => .ok ((), rest)
  | rest => .error (.next .expectedColon rest)

/-! ## Values -/

mutual

/-- Reads a value, with fuel for its length and at most `maxDepth` levels. -/
def readValue : Nat → Nat → JsonReader Json
  | 0, _, cs => .error (.next .endInValue cs)
  | fuel + 1, depth, cs =>
    match skipBlanks cs with
    | [] => .error (.next .endInValue [])
    | 'n' :: rest => do
      let ((), rest) ← readWord ['u', 'l', 'l'] rest
      .ok (.null, rest)
    | 't' :: rest => do
      let ((), rest) ← readWord ['r', 'u', 'e'] rest
      .ok (.bool true, rest)
    | 'f' :: rest => do
      let ((), rest) ← readWord ['a', 'l', 's', 'e'] rest
      .ok (.bool false, rest)
    | '-' :: rest => do
      let (n, rest) ← readNumber false rest
      .ok (.number n, rest)
    | '"' :: rest => do
      let (s, rest) ← readString rest
      .ok (.string s, rest)
    | '[' :: rest =>
      match depth with
      | depth + 2 => do
        let (items, rest) ← readItems fuel (depth + 1) true rest
        let ((), rest) ← endList rest
        .ok (.array items, rest)
      | _ => .error (.next .tooDeep ('[' :: rest))
    | '\x7b' :: rest =>
      match depth with
      | depth + 2 => do
        let (members, rest) ← readMembers fuel (depth + 1) true rest
        .ok (ofMembers members, rest)
      | _ => .error (.next .tooDeep ('\x7b' :: rest))
    | c :: rest =>
      if c.isDigit then do
        let (n, rest) ← readNumber true (c :: rest)
        .ok (.number n, rest)
      else .error (.next .expectedValue (c :: rest))

/-- Reads the items of an array up to its closing bracket, each by `readValue`. -/
def readItems : Nat → Nat → Bool → JsonReader (List Json)
  | 0, _, _, cs => .error (.next .endInList cs)
  | fuel + 1, depth, first, cs => do
    let (more, rest) ← nextItem first cs
    if more then
      let (item, rest) ← readValue fuel depth rest
      let (items, rest) ← readItems fuel depth false rest
      .ok (item :: items, rest)
    else .ok ([], rest)

/-- Reads the members of an object and its closing brace, each value by `readValue`. -/
def readMembers : Nat → Nat → Bool → JsonReader (List (String × Json))
  | 0, _, _, cs => .error (.next .endInObject cs)
  | fuel + 1, depth, first, cs => do
    let (more, rest) ← nextKey first cs
    if more then
      let (key, rest) ← readString rest
      let ((), rest) ← readColon rest
      let (value, rest) ← readValue fuel depth rest
      let (members, rest) ← readMembers fuel depth false rest
      .ok ((key, value) :: members, rest)
    else .ok ([], rest.drop 1)

end

/-- What is left of a text behind its value: nothing but blanks. -/
def readEnd : JsonReader Unit := fun cs =>
  match skipBlanks cs with
  | [] => .ok ((), [])
  | rest => .error (.next .trailingCharacters rest)

/-- Reads a `text` that is one value and nothing else. -/
def parse (text : String) : Except JsonFault Json := do
  let cs := text.toList
  let (value, rest) ← readValue (2 * cs.length + 2) maxDepth cs
  let ((), _) ← readEnd rest
  .ok value

/-! ## Skipping -/

/-- Reads past an escape after its backslash, where `readEscape` would read it. -/
def skipEscape : JsonReader Unit := fun cs =>
  match cs with
  | [] => .error (.here .endInString [])
  | 'u' :: rest => do
    let (_, rest) ← readHex rest
    .ok ((), rest)
  | c :: rest =>
    if ['"', '\\', '/', 'b', 'f', 'n', 'r', 't'].contains c then .ok ((), rest)
    else .error (.next .invalidEscape (c :: rest))

/-- Reads past a string after its first quote, where `readChars` would read it. -/
def skipChars : Nat → JsonReader Unit
  | 0, cs => .error (.here .endInString cs)
  | fuel + 1, cs =>
    match cs with
    | [] => .error (.here .endInString [])
    | '"' :: rest => .ok ((), rest)
    | '\\' :: rest => do
      let ((), rest) ← skipEscape rest
      skipChars fuel rest
    | c :: rest =>
      if c.toNat < 32 then .error (.here .controlCharacter (c :: rest)) else skipChars fuel rest

def skipString : JsonReader Unit := fun cs => skipChars (cs.length + 1) cs

def skipSign : List Char → List Char
  | '+' :: rest => rest
  | '-' :: rest => rest
  | cs => cs

/-- Reads past an exponent after its `e`. -/
def skipExponent : JsonReader Unit := fun cs =>
  match skipSign cs with
  | [] => .error (.here .invalidNumber [])
  | c :: rest =>
    if c.isDigit then .ok ((), skipDigits rest) else .error (.next .invalidNumber (c :: rest))

/-- Reads past the exponent of a number whose digits have been read, if there is one
(`skipExponent`). -/
def skipPower : JsonReader Unit := fun cs =>
  match cs with
  | 'e' :: rest => skipExponent rest
  | 'E' :: rest => skipExponent rest
  | cs => .ok ((), cs)

/-- Reads past what follows the digits of an integer, a fraction and then `skipPower`. -/
def skipFraction : JsonReader Unit := fun cs =>
  match cs with
  | '.' :: more =>
    let rest := skipDigits more
    if rest.length = more.length then .error (.next .invalidNumber more) else skipPower rest
  | cs => skipPower cs

/-- Reads past a number after its sign, digit by digit and by `skipFraction`. -/
def skipNumber : JsonReader Unit := fun cs =>
  match cs with
  | [] => .error (.here .invalidNumber [])
  | '0' :: rest =>
    match rest with
    | c :: _ => if c.isDigit then .error (.next .invalidNumber rest) else skipFraction rest
    | [] => .ok ((), [])
  | c :: rest =>
    if c.isDigit then skipFraction (skipDigits rest) else .error (.next .invalidNumber (c :: rest))

mutual

/-- Reads past a value, of whatever depth, where `readValue` would read it. -/
def skipValue : Nat → JsonReader Unit
  | 0, cs => .error (.next .endInValue cs)
  | fuel + 1, cs =>
    match skipBlanks cs with
    | [] => .error (.next .endInValue [])
    | 'n' :: rest => readWord ['u', 'l', 'l'] rest
    | 't' :: rest => readWord ['r', 'u', 'e'] rest
    | 'f' :: rest => readWord ['a', 'l', 's', 'e'] rest
    | '-' :: rest => skipNumber rest
    | '"' :: rest => skipString rest
    | '[' :: rest => skipItems fuel true rest
    | '\x7b' :: rest => skipMembers fuel true rest
    | c :: rest =>
      if c.isDigit then skipNumber (c :: rest) else .error (.next .expectedValue (c :: rest))

/-- Reads past the items of an array and its closing bracket, each by `skipValue`. -/
def skipItems : Nat → Bool → JsonReader Unit
  | 0, _, cs => .error (.next .endInList cs)
  | fuel + 1, first, cs =>
    match skipBlanks cs with
    | [] => .error (.next .endInList [])
    | ']' :: rest => .ok ((), rest)
    | c :: rest =>
      if !first && c ≠ ',' then .error (.next .expectedListEnd (c :: rest))
      else do
        let ((), rest) ← skipValue fuel (if first then c :: rest else rest)
        skipItems fuel false rest

/-- Reads past the members of an object and its closing brace, each value by `skipValue`. -/
def skipMembers : Nat → Bool → JsonReader Unit
  | 0, _, cs => .error (.next .endInObject cs)
  | fuel + 1, first, cs =>
    match skipBlanks cs with
    | [] => .error (.next .endInObject [])
    | '\x7d' :: rest => .ok ((), rest)
    | c :: rest =>
      if !first && c ≠ ',' then .error (.next .expectedObjectEnd (c :: rest))
      else
        match skipBlanks (if first then c :: rest else rest) with
        | [] => .error (.next .endInObject [])
        | '"' :: rest => do
          let ((), rest) ← skipString rest
          let ((), rest) ← readColon rest
          let ((), rest) ← skipValue fuel rest
          skipMembers fuel false rest
        | rest => .error (.next .keyNotString rest)

end

end Json

end FlowMigration
