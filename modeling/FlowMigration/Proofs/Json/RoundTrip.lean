import FlowMigration.Proofs.Json.Text

/-!
# Values are read back as they were written

A value that is written over several lines reads as itself, with the members of its objects in
order. It must hold no double, whose shortest text is another matter, and be nested no deeper than
the reader goes.

* `Json.Fits`, `Json.Whole`: the values that can be read back.
* `Json.sorted`: a value with the members of its objects in order.
* `parse_pretty`: what is read back.
-/

namespace FlowMigration

/-! ## Values that can be read back -/

/-- The numbers of 64 bits; a `double` always is one. -/
def JsonNumber.InRange : JsonNumber → Prop
  | .natural n => n ≤ Json.maxNatural
  | .negative n => 0 < n ∧ n ≤ Json.maxNegative
  | .double _ => True

namespace Json

mutual

/-- A value that can be read where `depth` levels are left. -/
def Fits (depth : Nat) : Json → Prop
  | .number n => n.InRange
  | .array items => 2 ≤ depth ∧ FitsItems (depth - 1) items
  | .object members => 2 ≤ depth ∧ FitsMembers (depth - 1) members
  | _ => True

def FitsItems (depth : Nat) : List Json → Prop
  | [] => True
  | item :: rest => item.Fits depth ∧ FitsItems depth rest

def FitsMembers (depth : Nat) : List (String × Json) → Prop
  | [] => True
  | m :: rest => FitsMember depth m ∧ FitsMembers depth rest

def FitsMember (depth : Nat) : String × Json → Prop
  | (_, value) => value.Fits depth

end

mutual

/-- No number of the value is a `double`. -/
def Whole : Json → Prop
  | .number (.double _) => False
  | .array items => WholeItems items
  | .object members => WholeMembers members
  | _ => True

def WholeItems : List Json → Prop
  | [] => True
  | item :: rest => item.Whole ∧ WholeItems rest

def WholeMembers : List (String × Json) → Prop
  | [] => True
  | m :: rest => WholeMember m ∧ WholeMembers rest

def WholeMember : String × Json → Prop
  | (_, value) => value.Whole

end

mutual

instance decidableWhole : (value : Json) → Decidable value.Whole
  | .number (.double _) => isFalse fun h => h
  | .number (.natural _) => isTrue trivial
  | .number (.negative _) => isTrue trivial
  | .null => isTrue trivial
  | .bool _ => isTrue trivial
  | .string _ => isTrue trivial
  | .array items => decidableWholeItems items
  | .object members => decidableWholeMembers members

def decidableWholeItems : (items : List Json) → Decidable (WholeItems items)
  | [] => isTrue trivial
  | item :: rest => @instDecidableAnd _ _ (decidableWhole item) (decidableWholeItems rest)

def decidableWholeMembers : (members : List (String × Json)) → Decidable (WholeMembers members)
  | [] => isTrue trivial
  | m :: rest => @instDecidableAnd _ _ (decidableWholeMember m) (decidableWholeMembers rest)

def decidableWholeMember : (m : String × Json) → Decidable (WholeMember m)
  | (_, value) => decidableWhole value

end

mutual

/-- The value with the members of its objects in order. -/
def sorted : Json → Json
  | .array items => .array (sortedItems items)
  | .object members => ofMembers (sortedMembers members)
  | value => value

def sortedItems : List Json → List Json
  | [] => []
  | item :: rest => item.sorted :: sortedItems rest

def sortedMembers : List (String × Json) → List (String × Json)
  | [] => []
  | m :: rest => sortedMember m :: sortedMembers rest

def sortedMember : String × Json → String × Json
  | (key, value) => (key, value.sorted)

end

/-! ## Blanks -/

theorem skipBlanks_cons {c : Char} (h : isBlank c = false) (cs : List Char) :
    skipBlanks (c :: cs) = c :: cs := by
  rw [skipBlanks, List.dropWhile_cons_of_neg (by simp [h])]

theorem skipBlanks_indent (d : Nat) (cs : List Char) :
    skipBlanks (indent d ++ cs) = skipBlanks cs := by
  have hall : ∀ c ∈ indent d, isBlank c = true := by
    intro c hc
    rcases List.mem_cons.1 hc with rfl | hc
    · rfl
    · rw [List.eq_of_mem_replicate hc]
      rfl
  rw [skipBlanks, List.dropWhile_append_of_pos hall, skipBlanks]

/-- The texts `cs` that values begin with. -/
structure Opens (cs : List Char) : Prop where
  head : ∃ c rest, cs = c :: rest ∧ isBlank c = false ∧ c ≠ ']' ∧ c ≠ '\x7d'

theorem opens_digitsOf (n : Nat) : Opens (Decimal.digitsOf n) := by
  cases hds : Decimal.digitsOf n with
  | nil => exact absurd hds Nat.toDigits_ne_nil
  | cons c cs =>
    have hdigit := isDigit_digitsOf (n := n) (c := c) (by simp [hds])
    refine ⟨c, cs, rfl, ?_, ?_, ?_⟩
    · cases hb : isBlank c with
      | false => rfl
      | true =>
        unfold isBlank at hb
        simp only [Bool.or_eq_true, decide_eq_true_eq] at hb
        rcases hb with ((rfl | rfl) | rfl) | rfl <;> exact absurd hdigit (by decide)
    · rintro rfl
      exact absurd hdigit (by decide)
    · rintro rfl
      exact absurd hdigit (by decide)

theorem opens_prettyText {v : Json} (h : v.Whole) (d : Nat) : Opens (prettyText d v) := by
  cases v with
  | null => exact ⟨'n', _, rfl, by decide⟩
  | bool b => cases b <;> exact ⟨_, _, rfl, by decide⟩
  | number n =>
    cases n with
    | natural n => exact opens_digitsOf n
    | negative n => exact ⟨'-', _, rfl, by decide⟩
    | double bits => exact absurd h (by simp [Whole])
  | string s => exact ⟨'"', _, rfl, by decide⟩
  | array items => cases items <;> exact ⟨'[', _, rfl, by decide⟩
  | object members => cases members <;> exact ⟨'\x7b', _, rfl, by decide⟩

/-! ## Reading by the first character -/

section
variable (fuel depth : Nat) (rest : List Char)

theorem readValue_blank : readValue (fuel + 1) depth (' ' :: rest) =
    readValue (fuel + 1) depth rest := rfl

theorem readValue_quote : readValue (fuel + 1) depth ('"' :: rest) =
    (readString rest).bind fun r => .ok (.string r.1, r.2) := rfl

theorem readValue_minus : readValue (fuel + 1) depth ('-' :: rest) =
    (readNumber false rest).bind fun r => .ok (.number r.1, r.2) := rfl

theorem readValue_digit {c : Char} (h : c.isDigit = true) (hblank : isBlank c = false) :
    readValue (fuel + 1) depth (c :: rest) =
      (readNumber true (c :: rest)).bind fun r => .ok (.number r.1, r.2) := by
  have hne : ∀ x : Char, x.isDigit = false → c ≠ x := by
    rintro x hx rfl
    rw [hx] at h
    cases h
  rw [readValue, skipBlanks_cons hblank]
  simp [h, hne]
  rfl

theorem readValue_bracket : readValue (fuel + 1) (depth + 2) ('[' :: rest) =
    (readItems fuel (depth + 1) true rest).bind fun r =>
      (endList r.2).bind fun e => .ok (.array r.1, e.2) := rfl

theorem readValue_brace : readValue (fuel + 1) (depth + 2) ('\x7b' :: rest) =
    (readMembers fuel (depth + 1) true rest).bind fun r => .ok (ofMembers r.1, r.2) := rfl

theorem readItems_succ (first : Bool) : readItems (fuel + 1) depth first rest =
    (nextItem first rest).bind fun n =>
      if n.1 then (readValue fuel depth n.2).bind fun v =>
        (readItems fuel depth false v.2).bind fun r => .ok (v.1 :: r.1, r.2)
      else .ok ([], n.2) := rfl

theorem readMembers_succ (first : Bool) : readMembers (fuel + 1) depth first rest =
    (nextKey first rest).bind fun n =>
      if n.1 then (readString n.2).bind fun k => (readColon k.2).bind fun c =>
        (readValue fuel depth c.2).bind fun v => (readMembers fuel depth false v.2).bind fun r =>
          .ok ((k.1, v.1) :: r.1, r.2)
      else .ok ([], n.2.drop 1) := rfl

end

theorem readValue_number {n : JsonNumber} (hr : n.InRange) (hw : (Json.number n).Whole)
    (fuel depth : Nat) {rest : List Char} (hrest : Clear rest) :
    readValue (fuel + 1) depth (n.text ++ rest) = .ok (.number n, rest) := by
  cases n with
  | natural n =>
    obtain ⟨c, cs, hds, hblank, -⟩ := (opens_digitsOf n).head
    have hdigit := isDigit_digitsOf (n := n) (c := c) (by simp [hds])
    have hread := readNumber_digits hr hrest true
    rw [hds, List.cons_append] at hread
    rw [JsonNumber.text, hds, List.cons_append, readValue_digit _ _ _ hdigit hblank, hread]
    rfl
  | negative n =>
    have hbound : maxNegative ≤ maxNatural := by decide
    have hread := readNumber_digits (Nat.le_trans hr.2 hbound) hrest false
    have hsign : integer false n = .negative n := by
      unfold integer
      rw [if_neg (by decide), if_neg]
      rintro (rfl | h)
      · exact absurd hr.1 (by decide)
      · exact absurd hr.2 (Nat.not_le.2 h)
    rw [JsonNumber.text, List.cons_append, readValue_minus, hread, hsign]
    rfl
  | double bits => exact absurd hw (by simp [Whole])

/-! ## Lines of items and members -/

/-- What stands before an item or a member, its indentation apart: a comma unless it is the
`first`. -/
def lead (first : Bool) : List Char := if first then [] else [',']

/-- What follows an item of an array, the last one if the list is empty, at the depth `d`. -/
def itemsTail (d : Nat) : List Json → List Char
  | [] => indent d ++ [']']
  | items => ',' :: prettyItems d items

theorem prettyItems_cons (d : Nat) (item : Json) (more : List Json) :
    prettyItems d (item :: more) =
      indent (d + 1) ++ (prettyText (d + 1) item ++ itemsTail d more) := by
  cases more with
  | nil => rw [prettyItems, itemsTail, List.append_assoc, List.append_assoc]
  | cons next more =>
    rw [prettyItems, itemsTail, List.append_assoc]
    · simp
    · simp

/-- What follows a member of an object, the last one if the list is empty, at the depth `d`. -/
def membersTail (d : Nat) : List (String × Json) → List Char
  | [] => indent d ++ ['\x7d']
  | members => ',' :: prettyMembers d members

theorem prettyMembers_cons (d : Nat) (m : String × Json) (more : List (String × Json)) :
    prettyMembers d (m :: more) =
      indent (d + 1) ++ (prettyMember d m ++ membersTail d more) := by
  cases more with
  | nil => rw [prettyMembers, membersTail, List.append_assoc, List.append_assoc]
  | cons next more =>
    rw [prettyMembers, membersTail, List.append_assoc]
    · simp
    · simp

theorem itemsTail_cons (d : Nat) (item : Json) (more : List Json) :
    itemsTail d (item :: more) = lead false ++ prettyItems d (item :: more) := rfl

theorem membersTail_cons (d : Nat) (m : String × Json) (more : List (String × Json)) :
    membersTail d (m :: more) = lead false ++ prettyMembers d (m :: more) := rfl

theorem clear_tail {c : Char} (h : c = ',' ∨ c = '\n') (rest : List Char) : Clear (c :: rest) := by
  intro x hx
  obtain rfl : c = x := Option.some.inj hx
  rcases h with rfl | rfl <;> decide

theorem clear_itemsTail (d : Nat) (items : List Json) (rest : List Char) :
    Clear (itemsTail d items ++ rest) := by
  cases items with
  | nil => exact clear_tail (.inr rfl) _
  | cons item more => exact clear_tail (.inl rfl) _

theorem clear_membersTail (d : Nat) (members : List (String × Json)) (rest : List Char) :
    Clear (membersTail d members ++ rest) := by
  cases members with
  | nil => exact clear_tail (.inr rfl) _
  | cons m more => exact clear_tail (.inl rfl) _

/-- The next item of an array, a text that `Opens` a value, in whatever place it stands. -/
theorem nextItem_indent {text : List Char} (h : Opens text) (first : Bool) (d : Nat)
    (rest : List Char) :
    nextItem first (lead first ++ (indent d ++ (text ++ rest))) = .ok (true, text ++ rest) := by
  obtain ⟨c, more, rfl, hblank, hclose, -⟩ := h.head
  rw [List.cons_append]
  have hskip : skipBlanks (indent d ++ c :: (more ++ rest)) = c :: (more ++ rest) := by
    rw [skipBlanks_indent, skipBlanks_cons hblank]
  unfold nextItem lead
  cases first with
  | true =>
    rw [if_pos rfl, List.nil_append, hskip]
    split
    · next he => cases he
    · next he => exact absurd (List.cons.inj he).1 hclose
    · next he =>
      obtain ⟨rfl, rfl⟩ := List.cons.inj he
      rfl
  | false =>
    rw [if_neg (by decide), List.singleton_append, skipBlanks_cons (by decide)]
    split
    · next he => cases he
    · next he => exact absurd (List.cons.inj he).1 (by decide)
    · next he =>
      obtain ⟨rfl, rfl⟩ := List.cons.inj he
      rw [if_neg (by decide), if_pos rfl, hskip]
      split
      · next he => cases he
      · next he => exact absurd (List.cons.inj he).1 hclose
      · rfl

/-- The next key of an object, whether or not it is the `first`. -/
theorem nextKey_indent (first : Bool) (d : Nat) (rest : List Char) :
    nextKey first (lead first ++ (indent d ++ '"' :: rest)) = .ok (true, rest) := by
  have hskip : skipBlanks (indent d ++ '"' :: rest) = '"' :: rest := by
    rw [skipBlanks_indent, skipBlanks_cons (by decide)]
  unfold nextKey lead
  cases first with
  | true =>
    rw [if_pos rfl, List.nil_append, hskip]
    rfl
  | false =>
    rw [if_neg (by decide), List.singleton_append, skipBlanks_cons (by decide)]
    simp [hskip]

section
variable {fuel depth d : Nat} {rest : List Char} (first : Bool)

/-- One more `item`. -/
theorem readItems_cons {item : Json} {more : List Json} (hw : item.Whole)
    (hv : readValue fuel depth (prettyText (d + 1) item ++ (itemsTail d more ++ rest)) =
      .ok (item.sorted, itemsTail d more ++ rest))
    (ht : readItems fuel depth false (itemsTail d more ++ rest) =
      .ok (sortedItems more, ']' :: rest)) :
    readItems (fuel + 1) depth first (lead first ++ (prettyItems d (item :: more) ++ rest)) =
      .ok (sortedItems (item :: more), ']' :: rest) := by
  rw [readItems_succ, prettyItems_cons, List.append_assoc, List.append_assoc,
    nextItem_indent (opens_prettyText hw _)]
  simp only [Except.bind, if_true, hv, ht]
  rfl

/-- One more member, the `key` with its `value`. -/
theorem readMembers_cons (key : String) {value : Json} {more : List (String × Json)}
    (hv : readValue fuel depth (prettyText (d + 1) value ++ (membersTail d more ++ rest)) =
      .ok (value.sorted, membersTail d more ++ rest))
    (ht : readMembers fuel depth false (membersTail d more ++ rest) =
      .ok (sortedMembers more, rest)) :
    readMembers (fuel + 1) depth first
        (lead first ++ (prettyMembers d ((key, value) :: more) ++ rest)) =
      .ok (sortedMembers ((key, value) :: more), rest) := by
  have hblank : ∀ cs, readValue fuel depth (' ' :: cs) = readValue fuel depth cs := by
    intro cs
    cases fuel with
    | zero => cases hv
    | succ fuel => exact readValue_blank fuel depth cs
  have hcolon : ∀ cs, readColon (':' :: cs) = .ok ((), cs) := fun _ => rfl
  rw [readMembers_succ, prettyMembers_cons, prettyMember, stringText]
  simp only [List.append_assoc, List.cons_append, List.nil_append]
  rw [nextKey_indent]
  simp only [Except.bind, if_true, readString_escape, hcolon, hblank, hv, ht]
  rfl

end

/-! ## Reading back -/

mutual

/-- **A value is read back as it was written**, in its `sorted` form. -/
theorem readValue_pretty (fuel depth d : Nat) {rest : List Char} (hrest : Clear rest) :
    (v : Json) → v.Fits depth → v.Whole → 2 * (prettyText d v).length ≤ fuel →
      readValue fuel depth (prettyText d v ++ rest) = .ok (v.sorted, rest)
  | .null, _, _, hfuel => by
    obtain ⟨fuel, rfl⟩ : ∃ n, fuel = n + 1 := ⟨fuel - 1, by simp [prettyText] at hfuel; omega⟩
    rfl
  | .bool b, _, _, hfuel => by
    obtain ⟨fuel, rfl⟩ : ∃ n, fuel = n + 1 :=
      ⟨fuel - 1, by cases b <;> simp [prettyText] at hfuel <;> omega⟩
    cases b <;> rfl
  | .number n, hfit, hw, hfuel => by
    obtain ⟨c, cs, hopen, -⟩ := (opens_prettyText hw d).head
    obtain ⟨fuel, rfl⟩ : ∃ n, fuel = n + 1 := ⟨fuel - 1, by rw [hopen] at hfuel; simp at hfuel; omega⟩
    exact readValue_number hfit hw fuel depth hrest
  | .string text, _, _, hfuel => by
    obtain ⟨fuel, rfl⟩ : ∃ n, fuel = n + 1 :=
      ⟨fuel - 1, by simp [prettyText, stringText] at hfuel; omega⟩
    rw [prettyText, stringText, List.cons_append, List.cons_append, List.append_assoc,
      List.singleton_append, readValue_quote, readString_escape]
    rfl
  | .array [], hfit, _, hfuel => by
    obtain ⟨depth, rfl⟩ : ∃ n, depth = n + 2 := ⟨depth - 2, by have := hfit.1; omega⟩
    obtain ⟨fuel, rfl⟩ : ∃ n, fuel = n + 2 := ⟨fuel - 2, by simp [prettyText] at hfuel; omega⟩
    rfl
  | .array (item :: more), hfit, hw, hfuel => by
    obtain ⟨depth, rfl⟩ : ∃ n, depth = n + 2 := ⟨depth - 2, by have := hfit.1; omega⟩
    simp only [prettyText, prettyItems_cons, List.length_cons, List.length_append] at hfuel
    obtain ⟨fuel, rfl⟩ : ∃ n, fuel = n + 2 := ⟨fuel - 2, by omega⟩
    have hv := readValue_pretty fuel _ (d + 1) (clear_itemsTail d more rest) item hfit.2.1 hw.1
      (by omega)
    have ht := readItems_tail fuel _ d rest more hfit.2.2 hw.2 (by omega)
    have hitems := readItems_cons true hw.1 hv ht
    have hend : endList (']' :: rest) = .ok ((), rest) := rfl
    rw [lead, if_pos rfl, List.nil_append] at hitems
    rw [show depth + 2 - 1 = depth + 1 from rfl] at hitems
    rw [prettyText, List.cons_append, readValue_bracket, hitems]
    simp only [Except.bind, hend, sorted]
  | .object [], hfit, _, hfuel => by
    obtain ⟨depth, rfl⟩ : ∃ n, depth = n + 2 := ⟨depth - 2, by have := hfit.1; omega⟩
    obtain ⟨fuel, rfl⟩ : ∃ n, fuel = n + 2 := ⟨fuel - 2, by simp [prettyText] at hfuel; omega⟩
    rfl
  | .object ((key, value) :: more), hfit, hw, hfuel => by
    obtain ⟨depth, rfl⟩ : ∃ n, depth = n + 2 := ⟨depth - 2, by have := hfit.1; omega⟩
    simp only [prettyText, prettyMembers_cons, prettyMember, List.length_cons, List.length_append]
      at hfuel
    obtain ⟨fuel, rfl⟩ : ∃ n, fuel = n + 2 := ⟨fuel - 2, by omega⟩
    have hv := readValue_pretty fuel _ (d + 1) (clear_membersTail d more rest) value hfit.2.1 hw.1
      (by omega)
    have ht := readMembers_tail fuel _ d rest more hfit.2.2 hw.2 (by omega)
    have hmembers := readMembers_cons true key hv ht
    rw [lead, if_pos rfl, List.nil_append] at hmembers
    rw [show depth + 2 - 1 = depth + 1 from rfl] at hmembers
    rw [prettyText, List.cons_append, readValue_brace, hmembers]
    simp only [Except.bind, sorted]

theorem readItems_tail (fuel depth d : Nat) (rest : List Char) :
    (items : List Json) → FitsItems depth items → WholeItems items →
      2 * (itemsTail d items).length ≤ fuel →
      readItems fuel depth false (itemsTail d items ++ rest) = .ok (sortedItems items, ']' :: rest)
  | [], _, _, hfuel => by
    obtain ⟨fuel, rfl⟩ : ∃ n, fuel = n + 1 := ⟨fuel - 1, by simp [itemsTail] at hfuel; omega⟩
    have hnext : nextItem false (indent d ++ ']' :: rest) = .ok (false, ']' :: rest) := by
      rw [nextItem, skipBlanks_indent]
      rfl
    rw [itemsTail, List.append_assoc, List.singleton_append, readItems_succ, hnext]
    rfl
  | item :: more, hfit, hw, hfuel => by
    simp only [itemsTail_cons, prettyItems_cons, List.length_append] at hfuel
    have hpos : 0 < (lead false).length := by decide
    obtain ⟨fuel, rfl⟩ : ∃ n, fuel = n + 1 := ⟨fuel - 1, by omega⟩
    have hv := readValue_pretty fuel _ (d + 1) (clear_itemsTail d more rest) item hfit.1 hw.1
      (by omega)
    have ht := readItems_tail fuel _ d rest more hfit.2 hw.2 (by omega)
    rw [itemsTail_cons, List.append_assoc]
    exact readItems_cons false hw.1 hv ht

theorem readMembers_tail (fuel depth d : Nat) (rest : List Char) :
    (members : List (String × Json)) → FitsMembers depth members → WholeMembers members →
      2 * (membersTail d members).length ≤ fuel →
      readMembers fuel depth false (membersTail d members ++ rest) =
        .ok (sortedMembers members, rest)
  | [], _, _, hfuel => by
    obtain ⟨fuel, rfl⟩ : ∃ n, fuel = n + 1 := ⟨fuel - 1, by simp [membersTail] at hfuel; omega⟩
    have hnext : nextKey false (indent d ++ '\x7d' :: rest) = .ok (false, '\x7d' :: rest) := by
      rw [nextKey, skipBlanks_indent]
      rfl
    rw [membersTail, List.append_assoc, List.singleton_append, readMembers_succ, hnext]
    rfl
  | (key, value) :: more, hfit, hw, hfuel => by
    simp only [membersTail_cons, prettyMembers_cons, prettyMember, List.length_cons,
      List.length_append] at hfuel
    obtain ⟨fuel, rfl⟩ : ∃ n, fuel = n + 1 := ⟨fuel - 1, by omega⟩
    have hv := readValue_pretty fuel _ (d + 1) (clear_membersTail d more rest) value hfit.1 hw.1
      (by omega)
    have ht := readMembers_tail fuel _ d rest more hfit.2 hw.2 (by omega)
    rw [membersTail_cons, List.append_assoc]
    exact readMembers_cons false key hv ht

end

/-- **A text that was written for a value `v`** reads as that value. -/
theorem parse_pretty {v : Json} (hfit : v.Fits maxDepth) (hw : v.Whole) :
    parse v.pretty = .ok v.sorted := by
  have hread := readValue_pretty (2 * (prettyText 0 v).length + 2) maxDepth 0 clear_nil v hfit hw
    (by omega)
  rw [List.append_nil] at hread
  have hend : readEnd [] = .ok ((), []) := rfl
  rw [parse, pretty, String.toList_ofList]
  simp only [hread, hend, bind, Except.bind]

end Json

end FlowMigration
