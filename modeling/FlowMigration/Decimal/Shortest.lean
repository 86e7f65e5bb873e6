/-! # The shortest decimal of a number

A binary fraction `m · 2 ^ q` stands for all real numbers that round to it. Of the decimals among
these, `Decimal.shortest?` gives one with the fewest digits, and of those the nearest one.

* `Binary64.decode`: the fraction that 64 bits stand for, with the ends of its interval.
* `Decimal.shortest?`: the digits and the exponent of the decimal.
-/

namespace FlowMigration

/-- A decimal `digits · 10 ^ exponent`. -/
structure Decimal where
  digits : Nat
  exponent : Int
deriving DecidableEq, Repr

/-- A positive number and the interval of those that round to it, all over one denominator. The
ends belong to the interval if `closed`. -/
structure RoundingInterval where
  value : Nat
  low : Nat
  high : Nat
  denominator : Nat
  closed : Bool

namespace Binary64

def mantissaBits : Nat := 52

/-- Whether the sign bit of `bits` is set. -/
def isNegative (bits : UInt64) : Bool := bits.toNat / Nat.pow 2 63 == 1

/-- The bits of the magnitude, all of `bits` but the sign. -/
def magnitude (bits : UInt64) : Nat := bits.toNat % Nat.pow 2 63

/-- Whether `bits` stand for a zero of either sign. -/
def isZero (bits : UInt64) : Bool := magnitude bits == 0

/-- The `magnitude` of a number that is not zero, in quarters of the unit of its last place, so that
the ends of the interval are whole numbers too. Below a power of two the numbers lie closer. -/
def interval (bits : UInt64) : RoundingInterval :=
  let biased := magnitude bits / Nat.pow 2 mantissaBits
  let fraction := magnitude bits % Nat.pow 2 mantissaBits
  let m := if biased = 0 then fraction else fraction + Nat.pow 2 mantissaBits
  let scale := if biased = 0 then 1 else biased
  let below := if fraction = 0 ∧ biased > 1 then 1 else 2
  let numerator (quarters : Nat) :=
    if scale ≥ 1077 then quarters * Nat.pow 2 (scale - 1077) else quarters
  { value := numerator (4 * m)
    low := numerator (4 * m - below)
    high := numerator (4 * m + 2)
    denominator := if scale ≥ 1077 then 1 else Nat.pow 2 (1077 - scale)
    closed := m % 2 = 0 }

end Binary64

namespace Decimal

/-- Whether `digits · 10 ^ exponent` lies in the interval. -/
def within (i : RoundingInterval) (d : Decimal) : Bool :=
  let (scaled, den) :=
    if d.exponent ≥ 0 then (d.digits * Nat.pow 10 d.exponent.toNat * i.denominator, 1)
    else (d.digits * i.denominator, Nat.pow 10 (-d.exponent).toNat)
  if i.closed then i.low * den ≤ scaled && scaled ≤ i.high * den
  else i.low * den < scaled && scaled < i.high * den

/-- The two neighbours of the value among the multiples of `10 ^ exponent`, and how the value
compares to the middle between them. -/
def neighbours (i : RoundingInterval) (exponent : Int) : Nat × Ordering :=
  let (num, den) :=
    if exponent ≥ 0 then (i.value, i.denominator * Nat.pow 10 exponent.toNat)
    else (i.value * Nat.pow 10 (-exponent).toNat, i.denominator)
  (num / den, compare (2 * (num % den)) den)

/-- The nearer of the `neighbours` of the value that lies in the interval; of two at the same
distance the even one. -/
def neighbourWithin? (i : RoundingInterval) (exponent : Int) : Option Decimal :=
  let (floor, half) := neighbours i exponent
  let lower : Decimal := ⟨floor, exponent⟩
  let upper : Decimal := ⟨floor + 1, exponent⟩
  let preferUpper := half = .gt ∨ (half = .eq ∧ floor % 2 = 1)
  let (first, second) := if preferUpper then (upper, lower) else (lower, upper)
  if within i first then some first else if within i second then some second else none

/-- The greatest exponent from `start` down, within `fuel` steps, whose power of ten is not above
the value. -/
def leading (i : RoundingInterval) : Nat → Int → Int
  | 0, e => e
  | fuel + 1, e =>
    if (neighbours i e).1 > 0 then e else leading i fuel (e - 1)

/-- The decimal with the fewest digits in the interval: the exponent falls from `exponent` on. -/
def search (i : RoundingInterval) : Nat → Int → Option Decimal
  | 0, _ => none
  | fuel + 1, exponent =>
    match neighbourWithin? i exponent with
    | some d => some d
    | none => search i fuel (exponent - 1)

/-- Zeros at the end of the `digits` are counted in the `exponent`. -/
def trimZeros : Nat → Decimal → Decimal
  | 0, d => d
  | fuel + 1, d =>
    if d.digits % 10 = 0 ∧ d.digits ≠ 0 then trimZeros fuel ⟨d.digits / 10, d.exponent + 1⟩ else d

/-- The shortest decimal that rounds to the value of `i`, by `search`. -/
def shortest? (i : RoundingInterval) : Option Decimal :=
  (search i 18 (leading i 640 309)).map (trimZeros 20)

/-- The decimal digits of `n`, the first one first. -/
def digitsOf (n : Nat) : List Char := Nat.toDigits 10 n

end Decimal

end FlowMigration
