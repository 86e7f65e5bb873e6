import FlowMigration.Json.Reader
import FlowMigration.Proofs.Results

/-!
# Written numbers and strings

Integers and strings are read back as they were written.

* `Clear`: what may follow a number in a text.
* `readNumber_digits`: the digits of an integer are read as that integer.
* `readString_escape`: a string with its escapes is read as that string.
-/

namespace FlowMigration.Json

/-! ## Integers -/

/-- A text `rest` that does not go on with a number. -/
def Clear (rest : List Char) : Prop :=
  ∀ c ∈ rest.head?, c.isDigit = false ∧ c ≠ '.' ∧ c ≠ 'e' ∧ c ≠ 'E'

theorem clear_nil : Clear [] := by simp [Clear]

theorem digit?_digitChar {d : Nat} (h : d < 10) : digit? (Nat.digitChar d) = some d := by
  have hall : ∀ d < 10, digit? (Nat.digitChar d) = some d := by decide
  exact hall d h

theorem digit?_of_isDigit {c : Char} (h : c.isDigit = true) :
    digit? c = some (c.toNat - '0'.toNat) := by
  rw [digit?, if_pos h]
  rfl

theorem digit?_of_not_isDigit {c : Char} (h : c.isDigit = false) : digit? c = none := by
  simp [digit?, h]

/-- Digits `ds` are taken up to the end of the number that they write, if it keeps to the
`limit`. -/
theorem takeDigits_digits {limit : Nat} {ds rest : List Char} (hds : ∀ c ∈ ds, c.isDigit = true)
    (hrest : Clear rest) {value count : Nat} (h : Nat.ofDigitChars 10 ds value ≤ limit) :
    takeDigits limit value count (ds ++ rest) =
      (Nat.ofDigitChars 10 ds value, count + ds.length, rest) := by
  induction ds generalizing value count with
  | nil =>
    rw [List.nil_append, Nat.ofDigitChars_nil, List.length_nil, Nat.add_zero]
    cases rest with
    | nil => rfl
    | cons c more => rw [takeDigits, digit?_of_not_isDigit (hrest c rfl).1]
  | cons c ds ih =>
    have hle : value * 10 + (c.toNat - '0'.toNat) ≤ limit := by
      rw [Nat.ofDigitChars_cons, Nat.ofDigitChars_eq_ofDigitChars_zero] at h
      have hpow : 0 < 10 ^ ds.length := Nat.pow_pos (by decide)
      have hmul := Nat.le_mul_of_pos_left (10 * value + (c.toNat - '0'.toNat)) hpow
      omega
    rw [Nat.ofDigitChars_cons, Nat.mul_comm] at h
    rw [List.cons_append, takeDigits, digit?_of_isDigit (hds c List.mem_cons_self)]
    dsimp only
    rw [if_neg (Nat.not_lt.2 hle), ih (fun c hc => hds c (List.mem_cons_of_mem _ hc)) h,
      Nat.ofDigitChars_cons, Nat.mul_comm 10, List.length_cons]
    congr 2
    omega

theorem exists_leading_digit {n : Nat} (h : 0 < n) :
    ∃ d ds, Nat.toDigits 10 n = Nat.digitChar d :: ds ∧ 0 < d ∧ d < 10 := by
  induction n using Nat.strongRecOn with
  | _ n ih =>
    by_cases hn : n < 10
    · exact ⟨n, [], Nat.toDigits_of_lt_base hn, h, hn⟩
    · obtain ⟨d, ds, hds, hd, hlt⟩ := ih (n / 10) (by omega) (by omega)
      refine ⟨d, ds ++ [Nat.digitChar (n % 10)], ?_, hd, hlt⟩
      rw [Nat.toDigits_of_base_le (by decide) (by omega), hds, List.cons_append]

theorem isDigit_digitsOf {n : Nat} {c : Char} (h : c ∈ Decimal.digitsOf n) : c.isDigit = true :=
  Nat.isDigit_of_mem_toDigits (by decide) (by decide) h

theorem finishInteger_clear {rest : List Char} (h : Clear rest) (positive : Bool) (value : Nat) :
    finishInteger positive value rest = .ok (integer positive value, rest) := by
  unfold finishInteger
  split
  · exact absurd rfl (h '.' rfl).2.1
  · exact absurd rfl (h 'e' rfl).2.2.1
  · exact absurd rfl (h 'E' rfl).2.2.2
  · rfl

/-- **The digits of an integer `n` are read as that integer**, with its sign. -/
theorem readNumber_digits {n : Nat} (h : n ≤ maxNatural) {rest : List Char} (hrest : Clear rest)
    (positive : Bool) :
    readNumber positive (Decimal.digitsOf n ++ rest) = .ok (integer positive n, rest) := by
  have hnext : ∀ c ∈ rest.head?, ¬c.isDigit = true := fun c hc => by simp [(hrest c hc).1]
  rcases Nat.eq_zero_or_pos n with rfl | hpos
  · rw [Decimal.digitsOf, Nat.toDigits_zero, List.singleton_append, ← finishInteger_clear hrest]
    unfold readNumber
    cases rest with
    | nil => rfl
    | cons c more => exact if_neg (hnext c rfl)
  · obtain ⟨d, ds, hds, hd, hlt⟩ := exists_leading_digit hpos
    have hall : ∀ c ∈ ds, c.isDigit = true := fun c hc =>
      isDigit_digitsOf (n := n) (by rw [Decimal.digitsOf, hds]; exact List.mem_cons_of_mem _ hc)
    have hvalue : Nat.ofDigitChars 10 ds d = n := by
      have htotal := Nat.ofDigitChars_ten_toDigits (n := n)
      rwa [hds, Nat.ofDigitChars_cons_digitChar_of_lt_ten hlt, Nat.mul_zero, Nat.zero_add]
        at htotal
    have hzero : Nat.digitChar d ≠ '0' := by
      have hne : ∀ d < 10, 0 < d → Nat.digitChar d ≠ '0' := by decide
      exact hne d hlt hd
    have htake : takeDigits maxNatural d 0 (ds ++ rest) =
        (Nat.ofDigitChars 10 ds d, 0 + ds.length, rest) :=
      takeDigits_digits hall hrest (by rw [hvalue]; exact h)
    rw [hvalue] at htake
    rw [Decimal.digitsOf, hds, List.cons_append, readNumber, digit?_digitChar hlt,
      ← finishInteger_clear hrest]
    · dsimp only
      rw [htake]
      dsimp only
      cases rest with
      | nil => rfl
      | cons c more => exact if_neg (hnext c rfl)
    · exact hzero

/-! ## Strings -/

theorem hexValue?_hexDigit {n : Nat} (h : n < 16) : hexValue? (Text.hexDigit n) = some n := by
  have hall : ∀ n < 16, hexValue? (Text.hexDigit n) = some n := by decide
  exact hall n h

/-- A control character `c` is read from its number. -/
theorem readEscape_number {c : Char} (h : c.toNat < 32) (rest : List Char) :
    readEscape ('u' :: '0' :: '0' :: Text.hexDigit (c.toNat / 16) ::
      Text.hexDigit (c.toNat % 16) :: rest) = .ok (c, rest) := by
  have hzero : hexValue? '0' = some 0 := by decide
  have hhex : readHex ('0' :: '0' :: Text.hexDigit (c.toNat / 16) ::
      Text.hexDigit (c.toNat % 16) :: rest) = .ok (c.toNat, rest) := by
    have hsum : 0 * 4096 + 0 * 256 + c.toNat / 16 * 16 + c.toNat % 16 = c.toNat := by omega
    unfold readHex
    simp only [hzero, hexValue?_hexDigit (show c.toNat / 16 < 16 by omega),
      hexValue?_hexDigit (show c.toNat % 16 < 16 by omega), hsum]
  have htrailing : isTrailing c.toNat = false := by
    simp [isTrailing]
    omega
  have hleading : isLeading c.toNat = false := by
    simp [isLeading]
    omega
  unfold readEscape readUnicode
  simp [hhex, htrailing, hleading, bind, Except.bind, Char.ofNat_toNat]

/-- **An escaped character `c` is read as that character.** -/
theorem readChars_escapeChar (fuel : Nat) (c : Char) (rest : List Char) :
    readChars (fuel + 1) (escapeChar c ++ rest) =
      (readChars fuel rest).map fun r => (c :: r.1, r.2) := by
  have hescape : ∀ {x : Char} {cs : List Char}, readEscape (cs ++ rest) = .ok (x, rest) →
      readChars (fuel + 1) ('\\' :: cs ++ rest) =
        (readChars fuel rest).map fun r => (x :: r.1, r.2) := by
    intro x cs he
    rw [List.cons_append, readChars, he]
    dsimp only [bind, Except.bind]
    cases readChars fuel rest <;> rfl
  unfold escapeChar
  split
  · exact hescape rfl
  · exact hescape rfl
  · exact hescape rfl
  · exact hescape rfl
  · exact hescape rfl
  · exact hescape rfl
  · exact hescape rfl
  · next hquote hback _ _ _ _ _ =>
    split
    · next hctrl => exact hescape (readEscape_number hctrl rest)
    · next hctrl =>
      rw [List.singleton_append, readChars]
      · rw [if_neg hctrl]
        cases readChars fuel rest <;> rfl
      · exact hquote
      · exact hback

theorem readChars_escape (cs rest : List Char) {fuel : Nat} (h : cs.length < fuel) :
    readChars fuel (cs.flatMap escapeChar ++ '"' :: rest) = .ok (cs, rest) := by
  induction cs generalizing fuel with
  | nil =>
    obtain ⟨fuel, rfl⟩ : ∃ n, fuel = n + 1 := ⟨fuel - 1, by simp at h; omega⟩
    rfl
  | cons c cs ih =>
    obtain ⟨fuel, rfl⟩ : ∃ n, fuel = n + 1 := ⟨fuel - 1, by simp at h; omega⟩
    rw [List.flatMap_cons, List.append_assoc, readChars_escapeChar,
      ih (Nat.lt_of_succ_lt_succ h)]
    rfl

theorem length_escape (cs : List Char) : cs.length ≤ (cs.flatMap escapeChar).length := by
  have hone : ∀ c, 1 ≤ (escapeChar c).length := by
    intro c
    unfold escapeChar
    split
    all_goals first | simp | (split <;> simp)
  induction cs with
  | nil => simp
  | cons c cs ih =>
    have hc := hone c
    rw [List.flatMap_cons, List.length_append, List.length_cons]
    omega

/-- **A string `text` with its escapes is read as that string.** -/
theorem readString_escape (text : String) (rest : List Char) :
    readString (escape text ++ '"' :: rest) = .ok (text, rest) := by
  have hlen := length_escape text.toList
  rw [readString, escape, readChars_escape text.toList rest (by
    rw [List.length_append]
    omega)]
  simp [bind, Except.bind, String.ofList_toList]

end FlowMigration.Json
