import FlowMigration.Proofs.Json.Grammar

/-!
# What is skipped is a value

The readers that go past a value, against the grammar.

* `skipString_eq_ok`, `skipNumber_sound`, `skipNumber_complete`: strings and numbers.
* `skipValue_sound`: whatever is skipped is a value.
* `skipValue_complete`: a value is skipped if no number goes on behind it.
-/

namespace FlowMigration.Json

variable {cs rest : List Char}

theorem readWord_eq_ok {word : List Char} {u : Unit} :
    readWord word cs = .ok (u, rest) ↔ cs = word ++ rest := by
  induction word generalizing cs with
  | nil => simp [readWord]
  | cons w word ih =>
    cases cs with
    | nil => simp [readWord]
    | cons c cs =>
      unfold readWord
      split
      · next he => simp [he, ih]
      · next hne => simpa using fun h => absurd h.symm hne

/-! ## Strings -/

theorem readHex_eq_ok {n : Nat} :
    readHex cs = .ok (n, rest) ↔ ∃ digits, cs = digits ++ rest ∧ Hex digits n := by
  constructor
  · intro h
    unfold readHex at h
    split at h
    · split at h
      · next ha hb hc hd =>
        cases h
        exact ⟨[_, _, _, _], rfl, .four ha hb hc hd⟩
      · cases h
    · split at h <;> cases h
  · rintro ⟨_, rfl, ⟨ha, hb, hc, hd⟩⟩
    simp [readHex, ha, hb, hc, hd]

theorem skipEscape_eq_ok {u : Unit} : skipEscape cs = .ok (u, rest) ↔
    (∃ c x, cs = c :: rest ∧ (c, x) ∈ escapes) ∨
      ∃ digits n, cs = 'u' :: (digits ++ rest) ∧ Hex digits n := by
  constructor
  · intro h
    unfold skipEscape at h
    split at h
    · cases h
    · obtain ⟨⟨n, more⟩, hhex, h⟩ := bind_eq_ok_iff.1 h
      cases h
      obtain ⟨digits, rfl, hn⟩ := readHex_eq_ok.1 hhex
      exact .inr ⟨digits, n, rfl, hn⟩
    · next c more _ =>
      split at h
      · next hc =>
        cases h
        have hmem : c ∈ escapes.map (·.1) := by simpa [escapes] using hc
        obtain ⟨⟨c', x⟩, hx, rfl⟩ := List.mem_map.1 hmem
        exact .inl ⟨c', x, rfl, hx⟩
      · cases h
  · rintro (⟨c, x, rfl, hx⟩ | ⟨digits, n, rfl, hn⟩)
    · simp only [escapes, List.mem_cons, Prod.mk.injEq, List.not_mem_nil, or_false] at hx
      rcases hx with h | h | h | h | h | h | h | h
      all_goals
        obtain ⟨rfl, -⟩ := h
        rfl
    · exact bind_eq_ok_iff.2 ⟨(n, rest), readHex_eq_ok.2 ⟨digits, rfl, hn⟩, rfl⟩

theorem skipChars_sound {fuel : Nat} {u : Unit} (h : skipChars fuel cs = .ok (u, rest)) :
    ∃ raw, cs = raw ++ '"' :: rest ∧ Raw raw := by
  induction fuel generalizing cs with
  | zero => cases h
  | succ fuel ih =>
    unfold skipChars at h
    split at h
    · cases h
    · cases h
      exact ⟨[], rfl, .nil⟩
    · obtain ⟨⟨_, more⟩, hesc, h⟩ := bind_eq_ok_iff.1 h
      obtain ⟨raw, rfl, hraw⟩ := ih h
      rcases skipEscape_eq_ok.1 hesc with ⟨c, x, rfl, hx⟩ | ⟨digits, n, rfl, hn⟩
      · exact ⟨_, rfl, .short hx hraw⟩
      · exact ⟨_, by simp, .number hn hraw⟩
    · next hq hb =>
      split at h
      · cases h
      · next hc =>
        obtain ⟨raw, rfl, hraw⟩ := ih h
        exact ⟨_, rfl, .plain hq hb hc hraw⟩

theorem skipChars_complete {raw : List Char} (h : Raw raw) (rest : List Char) {fuel : Nat}
    (hf : raw.length < fuel) : skipChars fuel (raw ++ '"' :: rest) = .ok ((), rest) := by
  induction h generalizing fuel with
  | nil =>
    obtain ⟨fuel, rfl⟩ := Nat.exists_eq_succ_of_ne_zero (Nat.ne_zero_of_lt hf)
    rfl
  | plain hq hb hc _ ih =>
    obtain ⟨fuel, rfl⟩ := Nat.exists_eq_succ_of_ne_zero (Nat.ne_zero_of_lt hf)
    rw [List.cons_append, skipChars.eq_5 _ _ _ hq hb, if_neg hc]
    exact ih (Nat.lt_of_succ_lt_succ hf)
  | short hx _ ih =>
    obtain ⟨fuel, rfl⟩ := Nat.exists_eq_succ_of_ne_zero (Nat.ne_zero_of_lt hf)
    simp only [List.length_cons] at hf
    exact bind_eq_ok_iff.2 ⟨((), _), skipEscape_eq_ok.2 (.inl ⟨_, _, rfl, hx⟩), ih (by omega)⟩
  | number hn _ ih =>
    obtain ⟨fuel, rfl⟩ := Nat.exists_eq_succ_of_ne_zero (Nat.ne_zero_of_lt hf)
    simp only [List.length_cons, List.length_append] at hf
    refine bind_eq_ok_iff.2 ⟨((), _), skipEscape_eq_ok.2 (.inr ⟨_, _, ?_, hn⟩), ih (by omega)⟩
    exact congrArg ('u' :: ·) (List.append_assoc ..)

/-- **A string is skipped** up to its closing quote, behind its `Raw` characters. -/
theorem skipString_eq_ok {u : Unit} :
    skipString cs = .ok (u, rest) ↔ ∃ raw, cs = raw ++ '"' :: rest ∧ Raw raw := by
  refine ⟨skipChars_sound, ?_⟩
  rintro ⟨raw, rfl, h⟩
  exact skipChars_complete h rest (by simp only [List.length_append]; omega)

/-! ## Numbers -/

theorem skipDigits_append {ds : List Char} (hds : ∀ c ∈ ds, c.isDigit = true)
    (hrest : ∀ c ∈ rest.head?, c.isDigit = false) : skipDigits (ds ++ rest) = rest := by
  rw [skipDigits, List.dropWhile_append_of_pos hds]
  cases rest with
  | nil => rfl
  | cons c more => exact List.dropWhile_cons_of_neg (by simp [hrest c rfl])

theorem exists_skipDigits (cs : List Char) :
    ∃ ds, cs = ds ++ skipDigits cs ∧ ∀ c ∈ ds, c.isDigit = true :=
  ⟨cs.takeWhile Char.isDigit, List.takeWhile_append_dropWhile.symm,
    List.all_eq_true.1 List.all_takeWhile⟩

theorem skipSign_eq (cs : List Char) : ∃ sign, cs = sign ++ skipSign cs ∧ Sign sign := by
  unfold skipSign
  split
  · exact ⟨['+'], rfl, .inr (.inl rfl)⟩
  · exact ⟨['-'], rfl, .inr (.inr rfl)⟩
  · exact ⟨[], rfl, .inl rfl⟩

theorem skipExponent_sound {u : Unit} (h : skipExponent cs = .ok (u, rest)) :
    ∃ sign ds, cs = sign ++ (ds ++ rest) ∧ Sign sign ∧ Digits ds := by
  obtain ⟨sign, he, hsign⟩ := skipSign_eq cs
  unfold skipExponent at h
  split at h
  · cases h
  · next c more hmore =>
    split at h
    · next hc =>
      cases h
      obtain ⟨ds, hds, hdigits⟩ := exists_skipDigits more
      refine ⟨sign, c :: ds, ?_, hsign, by simp, List.forall_mem_cons.2 ⟨hc, hdigits⟩⟩
      rw [List.cons_append, ← hds, ← hmore]
      exact he
    · cases h

theorem skipExponent_complete {sign ds : List Char} (hsign : Sign sign) (h : Digits ds)
    (hrest : Clear rest) : skipExponent (sign ++ (ds ++ rest)) = .ok ((), rest) := by
  obtain ⟨hne, hds⟩ := h
  obtain ⟨d, ds, rfl⟩ := List.exists_cons_of_ne_nil hne
  rw [List.forall_mem_cons] at hds
  have hskip : skipSign (sign ++ (d :: ds ++ rest)) = d :: ds ++ rest := by
    rcases hsign with rfl | rfl | rfl
    · -- a digit is no sign
      have hplus : d ≠ '+' := fun he => absurd hds.1 (by rw [he]; decide)
      have hminus : d ≠ '-' := fun he => absurd hds.1 (by rw [he]; decide)
      simp [skipSign, hplus, hminus]
    · rfl
    · rfl
  rw [skipExponent, hskip, List.cons_append]
  dsimp only
  rw [if_pos hds.1, skipDigits_append hds.2 fun c hc => (hrest c hc).1]

theorem skipPower_sound {u : Unit} (h : skipPower cs = .ok (u, rest)) :
    ∃ exponent, cs = exponent ++ rest ∧ Exponent exponent := by
  unfold skipPower at h
  split at h
  · obtain ⟨sign, ds, rfl, hsign, hds⟩ := skipExponent_sound h
    exact ⟨'e' :: (sign ++ ds), by simp, .inr ⟨'e', sign, ds, rfl, .inl rfl, hsign, hds⟩⟩
  · obtain ⟨sign, ds, rfl, hsign, hds⟩ := skipExponent_sound h
    exact ⟨'E' :: (sign ++ ds), by simp, .inr ⟨'E', sign, ds, rfl, .inr rfl, hsign, hds⟩⟩
  · cases h
    exact ⟨[], rfl, .inl rfl⟩

theorem skipPower_complete {exponent : List Char} (h : Exponent exponent) (hrest : Clear rest) :
    skipPower (exponent ++ rest) = .ok ((), rest) := by
  rcases h with rfl | ⟨e, sign, ds, rfl, he, hsign, hds⟩
  · -- what is behind does not begin with an exponent
    rw [List.nil_append]
    unfold skipPower
    split
    · exact absurd rfl (hrest 'e' rfl).2.2.1
    · exact absurd rfl (hrest 'E' rfl).2.2.2
    · rfl
  · rw [List.cons_append, List.append_assoc]
    rcases he with rfl | rfl
    · exact skipExponent_complete hsign hds hrest
    · exact skipExponent_complete hsign hds hrest

theorem skipFraction_sound {u : Unit} (h : skipFraction cs = .ok (u, rest)) :
    ∃ fraction exponent, cs = fraction ++ (exponent ++ rest) ∧ Fraction fraction ∧
      Exponent exponent := by
  unfold skipFraction at h
  split at h
  · next more =>
    dsimp only at h
    split at h
    · cases h
    · next hlen =>
      obtain ⟨ds, he, hds⟩ := exists_skipDigits more
      have hne : ds ≠ [] := by
        rintro rfl
        exact hlen (congrArg List.length he.symm)
      obtain ⟨exponent, hrest, hexp⟩ := skipPower_sound h
      refine ⟨'.' :: ds, exponent, ?_, .inr ⟨ds, rfl, hne, hds⟩, hexp⟩
      rw [List.cons_append, ← hrest, ← he]
  · obtain ⟨exponent, rfl, hexp⟩ := skipPower_sound h
    exact ⟨[], exponent, rfl, .inl rfl, hexp⟩

/-- No number goes on where an `exponent` may stand, and none where a fraction may. -/
theorem Exponent.head {exponent : List Char} (h : Exponent exponent) (hrest : Clear rest) :
    ∀ c ∈ (exponent ++ rest).head?, c.isDigit = false ∧ c ≠ '.' := by
  rcases h with rfl | ⟨e, sign, ds, rfl, rfl | rfl, -⟩
  · exact fun c hc => ⟨(hrest c hc).1, (hrest c hc).2.1⟩
  · simp
  · simp

theorem Fraction.head {fraction exponent : List Char} (h : Fraction fraction)
    (he : Exponent exponent) (hrest : Clear rest) :
    ∀ c ∈ (fraction ++ (exponent ++ rest)).head?, c.isDigit = false := by
  rcases h with rfl | ⟨ds, rfl, -⟩
  · exact fun c hc => (he.head hrest c hc).1
  · simp

theorem skipFraction_complete {fraction exponent : List Char} (hf : Fraction fraction)
    (he : Exponent exponent) (hrest : Clear rest) :
    skipFraction (fraction ++ (exponent ++ rest)) = .ok ((), rest) := by
  rcases hf with rfl | ⟨ds, rfl, hne, hds⟩
  · rw [List.nil_append]
    unfold skipFraction
    split
    · next heq => exact absurd rfl (he.head hrest '.' (by rw [heq]; rfl)).2
    · exact skipPower_complete he hrest
  · rw [List.cons_append, skipFraction,
      skipDigits_append hds fun c hc => (he.head hrest c hc).1, if_neg, skipPower_complete he hrest]
    have := List.length_pos_iff.2 hne
    simp only [List.length_append]
    omega

theorem skipNumber_sound {u : Unit} (h : skipNumber cs = .ok (u, rest)) :
    ∃ raw, cs = raw ++ rest ∧ Unsigned raw := by
  have hzero : Integer ['0'] := ⟨⟨by simp, List.forall_mem_singleton.2 (by decide)⟩, fun _ => rfl⟩
  unfold skipNumber at h
  split at h
  · cases h
  · split at h
    · split at h
      · cases h
      · obtain ⟨fraction, exponent, he, hf, hexp⟩ := skipFraction_sound h
        exact ⟨_, by rw [he]; simp, ['0'], fraction, exponent, rfl, hzero, hf, hexp⟩
    · cases h
      exact ⟨['0'], rfl, ['0'], [], [], rfl, hzero, .inl rfl, .inl rfl⟩
  · next c more hne =>
    split at h
    · next hc =>
      obtain ⟨ds, hds, hdigits⟩ := exists_skipDigits more
      obtain ⟨fraction, exponent, he, hf, hexp⟩ := skipFraction_sound h
      have hint : Integer (c :: ds) := by
        refine ⟨⟨by simp, List.forall_mem_cons.2 ⟨hc, hdigits⟩⟩, fun h0 => ?_⟩
        exact absurd (by simpa using h0) hne
      exact ⟨_, by rw [hds, he]; simp, c :: ds, fraction, exponent, rfl, hint, hf, hexp⟩
    · cases h

theorem skipNumber_complete {raw : List Char} (h : Unsigned raw) (hrest : Clear rest) :
    skipNumber (raw ++ rest) = .ok ((), rest) := by
  obtain ⟨int, fraction, exponent, rfl, ⟨⟨hne, hds⟩, hzero⟩, hf, he⟩ := h
  have hskip := skipFraction_complete hf he hrest
  have hhead := hf.head he hrest
  obtain ⟨d, ds, rfl⟩ := List.exists_cons_of_ne_nil hne
  rw [List.forall_mem_cons] at hds
  rw [List.append_assoc, List.append_assoc, List.cons_append]
  by_cases hd : d = '0'
  · obtain ⟨rfl, rfl⟩ : d = '0' ∧ ds = [] := by simpa [hd] using hzero
    rw [List.nil_append]
    cases hrest : fraction ++ (exponent ++ rest) with
    | nil =>
      rw [hrest] at hskip
      exact hskip
    | cons c more =>
      rw [hrest] at hskip hhead
      rw [skipNumber.eq_2, if_neg (by simp [hhead c rfl]), hskip]
  · rw [skipNumber.eq_4 _ _ hd, if_pos hds.1, skipDigits_append hds.2 hhead, hskip]

/-! ## Values -/

/-- Where `skipValue` comes to an end there is a value. -/
def ValuesSkipped (fuel : Nat) : Prop := ∀ {cs rest u},
  skipValue fuel cs = .ok (u, rest) → ∃ mid f, Blanks cs mid ∧ Value mid f rest

def ItemsSkipped (fuel : Nat) : Prop := ∀ {first cs rest u},
  skipItems fuel first cs = .ok (u, rest) → ∃ items, Items first cs items rest

def MembersSkipped (fuel : Nat) : Prop := ∀ {first cs rest u},
  skipMembers fuel first cs = .ok (u, rest) → ∃ members, Members first cs members rest

theorem valuesSkipped_succ {fuel : Nat} (hi : ItemsSkipped fuel) (hm : MembersSkipped fuel) :
    ValuesSkipped (fuel + 1) := by
  intro cs rest u h
  have hb := blanks_skipBlanks cs
  unfold skipValue at h
  split at h
  · cases h
  · next he =>
    obtain rfl := readWord_eq_ok.1 h
    exact ⟨_, .null, he ▸ hb, .nullWord _⟩
  · next he =>
    obtain rfl := readWord_eq_ok.1 h
    exact ⟨_, .bool true, he ▸ hb, .trueWord _⟩
  · next he =>
    obtain rfl := readWord_eq_ok.1 h
    exact ⟨_, .bool false, he ▸ hb, .falseWord _⟩
  · next he =>
    obtain ⟨raw, rfl, hraw⟩ := skipNumber_sound h
    exact ⟨'-' :: (raw ++ rest), .number ('-' :: raw), he ▸ hb, .number (.inr ⟨raw, rfl, hraw⟩) _⟩
  · next he =>
    obtain ⟨raw, rfl, hraw⟩ := skipString_eq_ok.1 h
    exact ⟨_, .string raw, he ▸ hb, .string hraw _⟩
  · next he =>
    obtain ⟨items, hitems⟩ := hi h
    exact ⟨_, .array items, he ▸ hb, .array hitems⟩
  · next he =>
    obtain ⟨members, hmembers⟩ := hm h
    exact ⟨_, .object members, he ▸ hb, .object hmembers⟩
  · next he =>
    split at h
    · obtain ⟨raw, hcs, hraw⟩ := skipNumber_sound h
      exact ⟨_, .number raw, hcs ▸ he ▸ hb, .number (.inl hraw) _⟩
    · cases h

/-- What stands behind the blanks and, between two items, behind a comma. -/
theorem between_of_head {first : Bool} {c : Char} {cs more mid : List Char}
    (he : skipBlanks cs = c :: more) (hc : ¬(!first && decide (c ≠ ',')) = true)
    (h : Blanks (if first then c :: more else more) mid) : Between first cs mid := by
  have hb := (skipBlanks_eq_cons.1 he).1
  cases first with
  | true => exact hb.trans h
  | false =>
    obtain rfl : c = ',' := by simpa using hc
    exact ⟨more, hb, h⟩

theorem itemsSkipped_succ {fuel : Nat} (hv : ValuesSkipped fuel) (hi : ItemsSkipped fuel) :
    ItemsSkipped (fuel + 1) := by
  intro first cs rest u h
  unfold skipItems at h
  split at h
  · cases h
  · next he =>
    cases h
    exact ⟨[], .close (skipBlanks_eq_cons.1 he).1⟩
  · next c more _ he =>
    split at h
    · cases h
    · next hc =>
      obtain ⟨⟨_, after⟩, hvalue, h⟩ := bind_eq_ok_iff.1 h
      obtain ⟨mid, f, hmid, hf⟩ := hv hvalue
      obtain ⟨items, hitems⟩ := hi h
      exact ⟨f :: items, .item (between_of_head he hc hmid) hf hitems⟩

theorem readColon_eq_ok {u : Unit} : readColon cs = .ok (u, rest) ↔ Blanks cs (':' :: rest) := by
  unfold readColon
  constructor
  · intro h
    split at h
    · cases h
    · next he =>
      cases h
      exact (skipBlanks_eq_cons.1 he).1
    · cases h
  · intro h
    rw [skipBlanks_eq_cons.2 ⟨h, by decide⟩]
    rfl

theorem membersSkipped_succ {fuel : Nat} (hv : ValuesSkipped fuel) (hm : MembersSkipped fuel) :
    MembersSkipped (fuel + 1) := by
  intro first cs rest u h
  unfold skipMembers at h
  split at h
  · cases h
  · next he =>
    cases h
    exact ⟨[], .close (skipBlanks_eq_cons.1 he).1⟩
  · next c more _ he =>
    split at h
    · cases h
    · next hc =>
      split at h
      · cases h
      · next key hkey =>
        simp only [bind_eq_ok_iff, Prod.exists] at h
        obtain ⟨_, behind, hstring, _, after, hcolon, _, next, hvalue, h⟩ := h
        obtain ⟨raw, rfl, hraw⟩ := skipString_eq_ok.1 hstring
        obtain ⟨mid, f, hmid, hf⟩ := hv hvalue
        obtain ⟨members, hmembers⟩ := hm h
        exact ⟨(raw, f) :: members, .member (between_of_head he hc (skipBlanks_eq_cons.1 hkey).1) hraw
          (readColon_eq_ok.1 hcolon) hmid hf hmembers⟩
      · cases h

theorem skipped (fuel : Nat) : ValuesSkipped fuel ∧ ItemsSkipped fuel ∧ MembersSkipped fuel := by
  induction fuel with
  | zero => exact ⟨nofun, nofun, nofun⟩
  | succ fuel ih =>
    obtain ⟨hv, hi, hm⟩ := ih
    exact ⟨valuesSkipped_succ hi hm, itemsSkipped_succ hv hi, membersSkipped_succ hv hm⟩

/-- **Whatever `skipValue` takes is a value.** -/
theorem skipValue_sound {fuel : Nat} {u : Unit} (h : skipValue fuel cs = .ok (u, rest)) :
    ∃ mid f, Blanks cs mid ∧ Value mid f rest :=
  (skipped fuel).1 h

/-! ### Completeness -/

theorem skipValue_digit {c : Char} {more : List Char} (h : c.isDigit = true)
    (hb : skipBlanks cs = c :: more) (fuel : Nat) :
    skipValue (fuel + 1) cs = skipNumber (c :: more) := by
  have hne : ∀ x : Char, x.isDigit = false → c ≠ x := by
    rintro x hx rfl
    rw [hx] at h
    cases h
  rw [skipValue, hb]
  simp [h, hne]

/-- What is no bracket is an item: `skipItems` skips a value there. -/
theorem skipItems_item {c : Char} {more : List Char} (hb : skipBlanks cs = c :: more) (hc : c ≠ ']')
    (fuel : Nat) (first : Bool) :
    skipItems (fuel + 1) first cs =
      if !first && c ≠ ',' then .error (.next .expectedListEnd (c :: more))
      else (skipValue fuel (if first then c :: more else more)).bind fun r =>
        skipItems fuel false r.2 := by
  rw [skipItems, hb]
  split
  · contradiction
  · next he => exact absurd (List.cons.inj he).1 hc
  · next he =>
    obtain ⟨rfl, rfl⟩ := List.cons.inj he
    rfl

theorem skipMembers_member {c : Char} {more key : List Char} (hb : skipBlanks cs = c :: more)
    (hc : c ≠ '\x7d') (fuel : Nat) (first : Bool)
    (hkey : skipBlanks (if first then c :: more else more) = '"' :: key) :
    skipMembers (fuel + 1) first cs =
      if !first && c ≠ ',' then .error (.next .expectedObjectEnd (c :: more))
      else (skipString key).bind fun s => (readColon s.2).bind fun k =>
        (skipValue fuel k.2).bind fun v => skipMembers fuel false v.2 := by
  rw [skipMembers, hb]
  split
  · contradiction
  · next he => exact absurd (List.cons.inj he).1 hc
  · next he =>
    obtain ⟨rfl, rfl⟩ := List.cons.inj he
    rw [hkey]
    rfl

/-- Two units of `fuel` for each character of a value are enough to skip it. -/
def ValuesPassed (fuel : Nat) : Prop := ∀ {cs mid f rest}, Blanks cs mid → Value mid f rest →
  Clear rest → 2 * mid.length ≤ fuel + 2 * rest.length → skipValue fuel cs = .ok ((), rest)

/-- Items take one unit of `fuel` less, for the bracket behind an item leaves two of them over. -/
def ItemsPassed (fuel : Nat) : Prop := ∀ {first cs items rest}, Items first cs items rest →
  2 * cs.length ≤ fuel + 1 + 2 * rest.length → skipItems fuel first cs = .ok ((), rest)

def MembersPassed (fuel : Nat) : Prop := ∀ {first cs members rest}, Members first cs members rest →
  2 * cs.length ≤ fuel + 1 + 2 * rest.length → skipMembers fuel first cs = .ok ((), rest)

theorem valuesPassed_succ {fuel : Nat} (hi : ItemsPassed fuel) (hm : MembersPassed fuel) :
    ValuesPassed (fuel + 1) := by
  intro cs mid f rest hb h hrest hf
  have hskip : skipBlanks cs = mid := by
    obtain ⟨c, more, rfl, hc, -⟩ := h.head
    exact skipBlanks_eq_cons.2 ⟨hb, hc⟩
  cases h with
  | nullWord => rw [skipValue, hskip]; rfl
  | trueWord => rw [skipValue, hskip]; rfl
  | falseWord => rw [skipValue, hskip]; rfl
  | number h =>
    rcases h with h | ⟨raw, rfl, h⟩
    · obtain ⟨c, more, rfl, hc⟩ := h.head
      rw [skipValue_digit hc hskip]
      exact skipNumber_complete h hrest
    · rw [skipValue, hskip]
      exact skipNumber_complete h hrest
  | string h =>
    rw [skipValue, hskip]
    exact skipString_eq_ok.2 ⟨_, rfl, h⟩
  | array h =>
    rw [skipValue, hskip]
    exact hi h (by simp only [List.length_cons] at hf; omega)
  | object h =>
    rw [skipValue, hskip]
    exact hm h (by simp only [List.length_cons] at hf; omega)

theorem itemsPassed_succ {fuel : Nat} (hv : ValuesPassed fuel) (hi : ItemsPassed fuel) :
    ItemsPassed (fuel + 1) := by
  intro first cs items rest h hf
  cases h with
  | close h => rw [skipItems, skipBlanks_eq_cons.2 ⟨h, by decide⟩]; rfl
  | @item _ _ mid more _ item items hb hvalue h =>
    have hmid := hb.length_le
    have hlt := hvalue.length_lt
    have hrest := h.length_lt
    -- what is left behind the item still holds the bracket
    have hitem : ∀ {cs'}, Blanks cs' mid → skipValue fuel cs' = .ok ((), more) :=
      fun hb' => hv hb' hvalue h.clear (by omega)
    have hmore : skipItems fuel false more = .ok ((), rest) := hi h (by omega)
    cases first with
    | true =>
      obtain ⟨c, mid, rfl, hc, hne⟩ := hvalue.head
      rw [skipItems_item (skipBlanks_eq_cons.2 ⟨hb, hc⟩) hne]
      exact bind_eq_ok_iff.2 ⟨_, hitem (.refl _), hmore⟩
    | false =>
      obtain ⟨after, hcomma, hb⟩ := hb
      rw [skipItems_item (skipBlanks_eq_cons.2 ⟨hcomma, by decide⟩) (by decide)]
      exact bind_eq_ok_iff.2 ⟨_, hitem hb, hmore⟩

theorem membersPassed_succ {fuel : Nat} (hv : ValuesPassed fuel) (hm : MembersPassed fuel) :
    MembersPassed (fuel + 1) := by
  intro first cs members rest h hf
  cases h with
  | close h => rw [skipMembers, skipBlanks_eq_cons.2 ⟨h, by decide⟩]; rfl
  | @member _ _ raw behind after mid more _ value members hb hraw hcolon hmid hvalue h =>
    have hlen := hb.length_le
    have hlen' := hcolon.length_le
    have hlen'' := hmid.length_le
    have hlt := hvalue.length_lt
    have hrest := h.length_lt
    simp only [List.length_cons, List.length_append] at hlen hlen'
    have hstring : skipString (raw ++ '"' :: behind) = .ok ((), behind) :=
      skipString_eq_ok.2 ⟨raw, rfl, hraw⟩
    have hvalue : skipValue fuel after = .ok ((), more) := hv hmid hvalue h.clear (by omega)
    have hmore : skipMembers fuel false more = .ok ((), rest) := hm h (by omega)
    have hread : ((skipString (raw ++ '"' :: behind)).bind fun s => (readColon s.2).bind fun k =>
        (skipValue fuel k.2).bind fun v => skipMembers fuel false v.2) = .ok ((), rest) :=
      bind_eq_ok_iff.2 ⟨_, hstring, bind_eq_ok_iff.2 ⟨((), _), readColon_eq_ok.2 hcolon,
        bind_eq_ok_iff.2 ⟨_, hvalue, hmore⟩⟩⟩
    cases first with
    | true =>
      have hquote := skipBlanks_eq_cons.2 ⟨hb, by decide⟩
      rw [skipMembers_member hquote (by decide) fuel true
        (skipBlanks_eq (.refl _) (by simp; decide))]
      exact hread
    | false =>
      obtain ⟨next, hcomma, hb⟩ := hb
      rw [skipMembers_member (skipBlanks_eq_cons.2 ⟨hcomma, by decide⟩) (by decide) fuel false
        (skipBlanks_eq_cons.2 ⟨hb, by decide⟩)]
      exact hread

theorem passed (fuel : Nat) : ValuesPassed fuel ∧ ItemsPassed fuel ∧ MembersPassed fuel := by
  induction fuel with
  | zero =>
    refine ⟨fun _ h _ hf => ?_, fun h hf => ?_, fun h hf => ?_⟩
    · have := h.length_lt
      omega
    · have := h.length_lt
      omega
    · have := h.length_lt
      omega
  | succ fuel ih =>
    obtain ⟨hv, hi, hm⟩ := ih
    exact ⟨valuesPassed_succ hi hm, itemsPassed_succ hv hi, membersPassed_succ hv hm⟩

/-- **A `Value` is skipped** if no number goes on behind it. -/
theorem skipValue_complete {mid : List Char} {f : Form} (hb : Blanks cs mid) (h : Value mid f rest)
    (hrest : Clear rest) : skipValue (2 * cs.length + 2) cs = .ok ((), rest) :=
  (passed _).1 hb h hrest (by have := hb.length_le; omega)

end FlowMigration.Json
