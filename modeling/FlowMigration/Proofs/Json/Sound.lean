import FlowMigration.Proofs.Json.Members
import FlowMigration.Proofs.Json.RoundTrip

/-!
# What the reader gives can be written back

* `parse_sound`: a value that was read fits where it was read, and its objects are ordered.
* `sorted_of_canonical`: such a value is its own sorted form.
* `fitsMembers_iff`, `wholeMembers_iff`, `canonicalMembers_iff`: the values of an object, one by
  one.
-/

namespace FlowMigration.Json

/-! ## Numbers -/

theorem takeDigits_le {limit value count : Nat} {cs : List Char} (h : value ≤ limit) :
    (takeDigits limit value count cs).1 ≤ limit := by
  induction cs generalizing value count with
  | nil => exact h
  | cons c cs ih =>
    unfold takeDigits
    split
    · next d _ =>
      split
      · exact h
      · next hle => exact ih (Nat.not_lt.1 hle)
    · exact h

theorem double_inRange {positive : Bool} {significand : Nat} {exponent : Int} {cs rest : List Char}
    {n : JsonNumber} (h : double positive significand exponent cs = .ok (n, rest)) : n.InRange := by
  unfold double at h
  split at h
  · cases h
    trivial
  · cases h

theorem readExponent_inRange {positive : Bool} {significand : Nat} {exponent : Int}
    {cs rest : List Char} {n : JsonNumber}
    (h : readExponent positive significand exponent cs = .ok (n, rest)) : n.InRange := by
  unfold readExponent at h
  dsimp only at h
  split at h
  · cases h
  · split at h
    · cases h
    · split at h
      · split at h
        · -- a zero, whatever the sign of its exponent
          split at h <;> split at h <;> cases h <;> trivial
        · exact double_inRange h
      · exact double_inRange h

theorem finishNumber_inRange {positive : Bool} {significand : Nat} {exponent : Int}
    {cs rest : List Char} {n : JsonNumber}
    (h : finishNumber positive significand exponent cs = .ok (n, rest)) : n.InRange := by
  unfold finishNumber at h
  split at h
  · exact readExponent_inRange h
  · exact readExponent_inRange h
  · exact double_inRange h

theorem readFraction_inRange {positive : Bool} {significand : Nat} {exponent : Int}
    {cs rest : List Char} {n : JsonNumber}
    (h : readFraction positive significand exponent cs = .ok (n, rest)) : n.InRange := by
  unfold readFraction at h
  dsimp only at h
  split at h
  · split at h
    · exact finishNumber_inRange h
    · split at h
      · cases h
      · exact finishNumber_inRange h
  · split at h
    · cases h
    · exact finishNumber_inRange h

theorem readLong_inRange {positive : Bool} {significand : Nat} {cs rest : List Char}
    {n : JsonNumber} (h : readLong positive significand cs = .ok (n, rest)) : n.InRange := by
  unfold readLong at h
  dsimp only at h
  split at h
  · exact readFraction_inRange h
  · exact finishNumber_inRange h

theorem integer_inRange {value : Nat} (h : value ≤ maxNatural) (positive : Bool) :
    (integer positive value).InRange := by
  unfold integer
  split
  · exact h
  · split
    · trivial
    · next hne =>
      rw [not_or] at hne
      exact ⟨Nat.pos_of_ne_zero hne.1, Nat.not_lt.1 hne.2⟩

theorem finishInteger_inRange {value : Nat} (hv : value ≤ maxNatural) {positive : Bool}
    {cs rest : List Char} {n : JsonNumber}
    (h : finishInteger positive value cs = .ok (n, rest)) : n.InRange := by
  unfold finishInteger at h
  split at h
  · exact readFraction_inRange h
  · exact readExponent_inRange h
  · exact readExponent_inRange h
  · cases h
    exact integer_inRange hv positive

/-- **A number that `readNumber` reads** is one of 64 bits. -/
theorem readNumber_inRange {positive : Bool} {cs rest : List Char} {n : JsonNumber}
    (h : readNumber positive cs = .ok (n, rest)) : n.InRange := by
  have hdigit : ∀ {c : Char} {d : Nat}, digit? c = some d → d ≤ maxNatural := by
    intro c d hd
    unfold digit? at hd
    split at hd
    · next hc =>
      have hle : c.toNat ≤ '9'.toNat := by
        unfold Char.isDigit at hc
        exact of_decide_eq_true (Bool.and_eq_true_iff.1 hc).2
      have hbound : '9'.toNat ≤ maxNatural := by decide
      have := Option.some.inj hd
      omega
    · cases hd
  unfold readNumber at h
  split at h
  · cases h
  · split at h
    · split at h
      · cases h
      · exact finishInteger_inRange (Nat.zero_le _) h
    · exact finishInteger_inRange (Nat.zero_le _) h
  · split at h
    · cases h
    · next d hd =>
      dsimp only at h
      split at h
      · split at h
        · exact readLong_inRange h
        · exact finishInteger_inRange (takeDigits_le (hdigit hd)) h
      · exact finishInteger_inRange (takeDigits_le (hdigit hd)) h

/-! ## Members one by one -/

theorem fitsMembers_iff {depth : Nat} {members : List (String × Json)} :
    FitsMembers depth members ↔ ∀ m ∈ members, m.2.Fits depth := by
  induction members with
  | nil => simp [FitsMembers]
  | cons m rest ih =>
    obtain ⟨key, value⟩ := m
    rw [FitsMembers, ih, List.forall_mem_cons, FitsMember]

theorem wholeMembers_iff {members : List (String × Json)} :
    WholeMembers members ↔ ∀ m ∈ members, m.2.Whole := by
  induction members with
  | nil => simp [WholeMembers]
  | cons m rest ih =>
    obtain ⟨key, value⟩ := m
    rw [WholeMembers, ih, List.forall_mem_cons, WholeMember]

theorem canonicalMembers_iff {members : List (String × Json)} :
    CanonicalMembers members ↔ ∀ m ∈ members, m.2.Canonical := by
  induction members with
  | nil => simp [CanonicalMembers]
  | cons m rest ih =>
    obtain ⟨key, value⟩ := m
    rw [CanonicalMembers, ih, List.forall_mem_cons, CanonicalMember]

theorem sortedMembers_eq_map (members : List (String × Json)) :
    sortedMembers members = members.map fun m => (m.1, m.2.sorted) := by
  induction members with
  | nil => rfl
  | cons m rest ih =>
    obtain ⟨key, value⟩ := m
    rw [sortedMembers, ih, List.map_cons, sortedMember]

/-! ## Values -/

/-- The object of `members` that were read. -/
theorem fits_ofMembers {depth : Nat} (hdepth : 2 ≤ depth) {members : List (String × Json)}
    (hfit : FitsMembers (depth - 1) members) (hcan : CanonicalMembers members) :
    (ofMembers members).Fits depth ∧ (ofMembers members).Canonical := by
  have hmem : ∀ m ∈ members.foldl (fun done m => insertMember m.1 m.2 done) [], m ∈ members := by
    intro m hm
    rcases mem_foldl_insertMember hm with hm | hm
    · exact hm
    · cases hm
  rw [fitsMembers_iff] at hfit
  rw [canonicalMembers_iff] at hcan
  exact ⟨⟨hdepth, fitsMembers_iff.2 fun m hm => hfit m (hmem m hm)⟩,
    ascending_foldl List.Pairwise.nil members,
    canonicalMembers_iff.2 fun m hm => hcan m (hmem m hm)⟩

/-- What is read as a value `Fits` where it is read, and its objects are ordered. -/
def ValuesSound (fuel : Nat) : Prop := ∀ {depth cs v rest},
  readValue fuel depth cs = .ok (v, rest) → v.Fits depth ∧ v.Canonical

/-- So do the items of an array. -/
def ItemsSound (fuel : Nat) : Prop := ∀ {depth first cs items rest},
  readItems fuel depth first cs = .ok (items, rest) → FitsItems depth items ∧ CanonicalItems items

/-- So do the members of an object. -/
def MembersSound (fuel : Nat) : Prop := ∀ {depth first cs members rest},
  readMembers fuel depth first cs = .ok (members, rest) →
    FitsMembers depth members ∧ CanonicalMembers members

theorem readValue_sound {fuel : Nat} (hi : ItemsSound fuel) (hm : MembersSound fuel) :
    ValuesSound (fuel + 1) := by
  intro depth cs v rest h
  unfold readValue at h
  split at h
  · cases h
  · obtain ⟨_, _, h⟩ := bind_eq_ok h
    cases h
    exact ⟨trivial, trivial⟩
  · obtain ⟨_, _, h⟩ := bind_eq_ok h
    cases h
    exact ⟨trivial, trivial⟩
  · obtain ⟨_, _, h⟩ := bind_eq_ok h
    cases h
    exact ⟨trivial, trivial⟩
  · obtain ⟨_, hn, h⟩ := bind_eq_ok h
    cases h
    exact ⟨readNumber_inRange hn, trivial⟩
  · obtain ⟨_, _, h⟩ := bind_eq_ok h
    cases h
    exact ⟨trivial, trivial⟩
  · split at h
    · obtain ⟨_, hitems, h⟩ := bind_eq_ok h
      obtain ⟨_, _, h⟩ := bind_eq_ok h
      cases h
      obtain ⟨hfit, hcan⟩ := hi hitems
      exact ⟨⟨Nat.le_add_left 2 _, hfit⟩, hcan⟩
    · cases h
  · split at h
    · obtain ⟨_, hmembers, h⟩ := bind_eq_ok h
      cases h
      obtain ⟨hfit, hcan⟩ := hm hmembers
      exact fits_ofMembers (Nat.le_add_left 2 _) hfit hcan
    · cases h
  · split at h
    · obtain ⟨_, hn, h⟩ := bind_eq_ok h
      cases h
      exact ⟨readNumber_inRange hn, trivial⟩
    · cases h

theorem readItems_sound {fuel : Nat} (hv : ValuesSound fuel) (hi : ItemsSound fuel) :
    ItemsSound (fuel + 1) := by
  intro depth first cs items rest h
  rw [readItems_succ] at h
  obtain ⟨⟨more, after⟩, -, h⟩ := bind_eq_ok h
  cases more with
  | false =>
    cases h
    exact ⟨trivial, trivial⟩
  | true =>
    obtain ⟨_, hvalue, h⟩ := bind_eq_ok h
    obtain ⟨_, hitems, h⟩ := bind_eq_ok h
    cases h
    obtain ⟨hfit, hcan⟩ := hv hvalue
    obtain ⟨hfits, hcans⟩ := hi hitems
    exact ⟨⟨hfit, hfits⟩, hcan, hcans⟩

theorem readMembers_sound {fuel : Nat} (hv : ValuesSound fuel) (hm : MembersSound fuel) :
    MembersSound (fuel + 1) := by
  intro depth first cs members rest h
  rw [readMembers_succ] at h
  obtain ⟨⟨more, after⟩, -, h⟩ := bind_eq_ok h
  cases more with
  | false =>
    cases h
    exact ⟨trivial, trivial⟩
  | true =>
    obtain ⟨_, -, h⟩ := bind_eq_ok h
    obtain ⟨_, -, h⟩ := bind_eq_ok h
    obtain ⟨_, hvalue, h⟩ := bind_eq_ok h
    obtain ⟨_, hmembers, h⟩ := bind_eq_ok h
    cases h
    obtain ⟨hfit, hcan⟩ := hv hvalue
    obtain ⟨hfits, hcans⟩ := hm hmembers
    exact ⟨⟨hfit, hfits⟩, hcan, hcans⟩

/-- **What is read fits** where it is read, and its objects are ordered, whatever `fuel` there
is. -/
theorem read_sound (fuel : Nat) : ValuesSound fuel ∧ ItemsSound fuel ∧ MembersSound fuel := by
  induction fuel with
  | zero =>
    refine ⟨fun h => ?_, fun h => ?_, fun h => ?_⟩
    · rw [readValue] at h
      cases h
    · rw [readItems] at h
      cases h
    · rw [readMembers] at h
      cases h
  | succ fuel ih =>
    obtain ⟨hv, hi, hm⟩ := ih
    exact ⟨readValue_sound hi hm, readItems_sound hv hi, readMembers_sound hv hm⟩

/-- **A `text` that is a value** is one that `Fits` and is `Canonical`. -/
theorem parse_sound {text : String} {v : Json} (h : parse text = .ok v) :
    v.Fits maxDepth ∧ v.Canonical := by
  obtain ⟨⟨v', rest⟩, hv, h⟩ := bind_eq_ok h
  obtain ⟨_, -, h⟩ := bind_eq_ok h
  cases h
  exact (read_sound _).1 hv

/-! ## Ordered values -/

mutual

/-- **A `Canonical` value is its own `sorted` form.** -/
theorem sorted_of_canonical : (v : Json) → v.Canonical → v.sorted = v
  | .null, _ => rfl
  | .bool _, _ => rfl
  | .number _, _ => rfl
  | .string _, _ => rfl
  | .array items, h => by rw [sorted, sortedItems_of_canonical items h]
  | .object members, h => by
    rw [sorted, sortedMembers_of_canonical members h.2, ofMembers, foldl_insertMember_eq h.1]

theorem sortedItems_of_canonical : (items : List Json) → CanonicalItems items →
    sortedItems items = items
  | [], _ => rfl
  | item :: rest, h => by
    rw [sortedItems, sorted_of_canonical item h.1, sortedItems_of_canonical rest h.2]

theorem sortedMembers_of_canonical : (members : List (String × Json)) → CanonicalMembers members →
    sortedMembers members = members
  | [], _ => rfl
  | (key, value) :: rest, h => by
    rw [sortedMembers, sortedMember, sorted_of_canonical value h.1,
      sortedMembers_of_canonical rest h.2]

end

end FlowMigration.Json
