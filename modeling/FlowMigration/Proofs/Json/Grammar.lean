import FlowMigration.Proofs.Json.Text

/-!
# The grammar of JSON

What a JSON text is, apart from any reader of it.

* `Form`: a value as it is written, with the characters of its numbers and strings.
* `Spells`: what the characters between the quotes of a string stand for.
* `Value`, `TextOf`: the texts of a form.
* `Items.clear`, `Members.clear`: no number goes on behind a value in an array or an object.
-/

namespace FlowMigration.Json

/-- A value as it is written. A `number` need not be one of 64 bits, and an escape in a `string` may
be half of a pair. -/
inductive Form where
  | null
  | bool (value : Bool)
  | number (raw : List Char)
  | string (raw : List Char)
  | array (items : List Form)
  | object (members : List (List Char × Form))

/-! ## Strings -/

/-- The characters that may stand behind a backslash, and what they stand for. -/
def escapes : List (Char × Char) :=
  [('"', '"'), ('\\', '\\'), ('/', '/'), ('b', '\x08'), ('f', '\x0c'), ('n', '\n'), ('r', '\r'),
    ('t', '\t')]

/-- Four digits to the base sixteen. -/
inductive Hex : List Char → Nat → Prop where
  | four {a b c d : Char} {w x y z : Nat} (ha : hexValue? a = some w) (hb : hexValue? b = some x)
    (hc : hexValue? c = some y) (hd : hexValue? d = some z) :
    Hex [a, b, c, d] (w * 4096 + x * 256 + y * 16 + z)

/-- What may stand between the quotes of a string: every escape is one of the `escapes` or a number
in `Hex`. -/
inductive Raw : List Char → Prop where
  | nil : Raw []
  | plain {c : Char} {raw : List Char} (hq : c ≠ '"') (hb : c ≠ '\\') (hc : ¬c.toNat < 32)
    (h : Raw raw) : Raw (c :: raw)
  | short {c x : Char} {raw : List Char} (hx : (c, x) ∈ escapes) (h : Raw raw) :
    Raw ('\\' :: c :: raw)
  | number {digits raw : List Char} {n : Nat} (hn : Hex digits n) (h : Raw raw) :
    Raw ('\\' :: 'u' :: (digits ++ raw))

/-- An escape behind its backslash: what it stands for, two numbers of halves for one character. -/
inductive Escape : List Char → Char → Prop where
  | short {c x : Char} (hx : (c, x) ∈ escapes) : Escape [c] x
  | number {digits : List Char} {n : Nat} (hn : Hex digits n) (hl : isLeading n = false)
    (ht : isTrailing n = false) : Escape ('u' :: digits) (Char.ofNat n)
  | pair {high low : List Char} {n m : Nat} (hn : Hex high n) (hl : isLeading n = true)
    (hm : Hex low m) (ht : isTrailing m = true) :
    Escape ('u' :: (high ++ '\\' :: 'u' :: low))
      (Char.ofNat ((n - 0xD800) * 0x400 + (m - 0xDC00) + 0x10000))

/-- What the characters between the quotes of a string stand for, with every `Escape` read. -/
inductive Spells : List Char → List Char → Prop where
  | nil : Spells [] []
  | plain {c : Char} {raw text : List Char} (hq : c ≠ '"') (hb : c ≠ '\\') (hc : ¬c.toNat < 32)
    (h : Spells raw text) : Spells (c :: raw) (c :: text)
  | escape {esc raw text : List Char} {x : Char} (hx : Escape esc x) (h : Spells raw text) :
    Spells ('\\' :: (esc ++ raw)) (x :: text)

theorem Spells.raw {raw text : List Char} (h : Spells raw text) : Raw raw := by
  induction h with
  | nil => exact .nil
  | plain hq hb hc _ ih => exact .plain hq hb hc ih
  | escape hx _ ih =>
    cases hx with
    | short hx => exact .short hx ih
    | number hn => exact .number hn ih
    | pair hn _ hm =>
      rw [List.cons_append, List.append_assoc]
      exact .number hn (.number hm ih)

/-! ## Numbers -/

/-- One digit or more in `ds`. -/
def Digits (ds : List Char) : Prop := ds ≠ [] ∧ ∀ c ∈ ds, c.isDigit = true

/-- The digits `ds` of an integer, of which a zero is not the first unless it is the only one. -/
def Integer (ds : List Char) : Prop := Digits ds ∧ (ds.head? = some '0' → ds = ['0'])

/-- A point and `Digits` behind it, if anything. -/
def Fraction (cs : List Char) : Prop := cs = [] ∨ ∃ ds, cs = '.' :: ds ∧ Digits ds

def Sign (cs : List Char) : Prop := cs = [] ∨ cs = ['+'] ∨ cs = ['-']

/-- An exponent with or without a sign in front of its `Digits`, if anything. -/
def Exponent (cs : List Char) : Prop :=
  cs = [] ∨ ∃ e sign ds, cs = e :: (sign ++ ds) ∧ (e = 'e' ∨ e = 'E') ∧ Sign sign ∧ Digits ds

/-- A number `raw` without its sign. -/
def Unsigned (raw : List Char) : Prop :=
  ∃ int fraction exponent, raw = int ++ (fraction ++ exponent) ∧ Integer int ∧ Fraction fraction ∧
    Exponent exponent

def Number (raw : List Char) : Prop := Unsigned raw ∨ ∃ more, raw = '-' :: more ∧ Unsigned more

theorem Unsigned.head {raw : List Char} (h : Unsigned raw) :
    ∃ c more, raw = c :: more ∧ c.isDigit = true := by
  obtain ⟨int, _, _, rfl, ⟨⟨hne, hdigits⟩, -⟩, -, -⟩ := h
  obtain ⟨c, more, rfl⟩ := List.exists_cons_of_ne_nil hne
  exact ⟨c, _, rfl, hdigits c List.mem_cons_self⟩

/-! ## Blanks -/

/-- A text `cs` that has nothing but blanks in front of `rest`. -/
def Blanks (cs rest : List Char) : Prop :=
  ∃ front, cs = front ++ rest ∧ ∀ c ∈ front, isBlank c = true

/-- What stands in front of an item or a member: `Blanks`, with a comma unless it is the first. -/
def Between (first : Bool) (cs rest : List Char) : Prop :=
  if first then Blanks cs rest else ∃ more, Blanks cs (',' :: more) ∧ Blanks more rest

theorem Blanks.refl (cs : List Char) : Blanks cs cs := ⟨[], rfl, fun _ h => absurd h List.not_mem_nil⟩

theorem Blanks.trans {cs mid rest : List Char} (h : Blanks cs mid) (h' : Blanks mid rest) :
    Blanks cs rest := by
  obtain ⟨front, rfl, hfront⟩ := h
  obtain ⟨back, rfl, hback⟩ := h'
  exact ⟨front ++ back, (List.append_assoc ..).symm, List.forall_mem_append.2 ⟨hfront, hback⟩⟩

theorem Between.trans {first : Bool} {cs mid rest : List Char} (h : Between first cs mid)
    (h' : Blanks mid rest) : Between first cs rest := by
  cases first with
  | true => exact Blanks.trans h h'
  | false =>
    obtain ⟨more, hcomma, hmore⟩ := h
    exact ⟨more, hcomma, hmore.trans h'⟩

theorem Blanks.length_le {cs rest : List Char} (h : Blanks cs rest) : rest.length ≤ cs.length := by
  obtain ⟨front, rfl, -⟩ := h
  exact List.length_append ▸ Nat.le_add_left ..

theorem Between.length_le {first : Bool} {cs rest : List Char} (h : Between first cs rest) :
    rest.length ≤ cs.length := by
  cases first with
  | true => exact Blanks.length_le h
  | false =>
    obtain ⟨more, hcomma, hmore⟩ := h
    have := hcomma.length_le
    have := hmore.length_le
    simp only [List.length_cons] at *
    omega

theorem blanks_skipBlanks (cs : List Char) : Blanks cs (skipBlanks cs) :=
  ⟨cs.takeWhile isBlank, List.takeWhile_append_dropWhile.symm, List.all_eq_true.1 List.all_takeWhile⟩

theorem skipBlanks_eq {cs rest : List Char} (h : Blanks cs rest)
    (hrest : ∀ c ∈ rest.head?, isBlank c = false) : skipBlanks cs = rest := by
  obtain ⟨front, rfl, hfront⟩ := h
  rw [skipBlanks, List.dropWhile_append_of_pos hfront]
  cases rest with
  | nil => rfl
  | cons c more => exact List.dropWhile_cons_of_neg (by simp [hrest c rfl])

theorem skipBlanks_eq_cons {cs rest : List Char} {c : Char} :
    skipBlanks cs = c :: rest ↔ Blanks cs (c :: rest) ∧ isBlank c = false := by
  constructor
  · intro h
    refine ⟨h ▸ blanks_skipBlanks cs, ?_⟩
    have hnot := List.head?_dropWhile_not isBlank cs
    rw [skipBlanks] at h
    rw [h] at hnot
    simpa using hnot
  · rintro ⟨h, hc⟩
    exact skipBlanks_eq h fun x hx => by
      obtain rfl : c = x := by simpa using hx
      exact hc

theorem skipBlanks_eq_nil {cs : List Char} : skipBlanks cs = [] ↔ Blanks cs [] :=
  ⟨fun h => h ▸ blanks_skipBlanks cs, fun h => skipBlanks_eq h fun _ hc => absurd hc (by simp)⟩

/-! ## Values -/

mutual

/-- A text that begins with the text of a `Form`, and what stands behind that. -/
inductive Value : List Char → Form → List Char → Prop where
  | nullWord (rest : List Char) : Value ('n' :: 'u' :: 'l' :: 'l' :: rest) .null rest
  | trueWord (rest : List Char) : Value ('t' :: 'r' :: 'u' :: 'e' :: rest) (.bool true) rest
  | falseWord (rest : List Char) :
    Value ('f' :: 'a' :: 'l' :: 's' :: 'e' :: rest) (.bool false) rest
  | number {raw : List Char} (h : Number raw) (rest : List Char) :
    Value (raw ++ rest) (.number raw) rest
  | string {raw : List Char} (h : Raw raw) (rest : List Char) :
    Value ('"' :: (raw ++ '"' :: rest)) (.string raw) rest
  | array {cs rest : List Char} {items : List Form} (h : Items true cs items rest) :
    Value ('[' :: cs) (.array items) rest
  | object {cs rest : List Char} {members : List (List Char × Form)}
    (h : Members true cs members rest) : Value ('\x7b' :: cs) (.object members) rest

/-- A text that begins with the items of an `array` and its closing bracket. -/
inductive Items : Bool → List Char → List Form → List Char → Prop where
  | close {first : Bool} {cs rest : List Char} (h : Blanks cs (']' :: rest)) : Items first cs [] rest
  | item {first : Bool} {cs mid more rest : List Char} {item : Form} {items : List Form}
    (hb : Between first cs mid) (hv : Value mid item more) (h : Items false more items rest) :
    Items first cs (item :: items) rest

/-- A text that begins with the members of an `object` and its closing brace. -/
inductive Members : Bool → List Char → List (List Char × Form) → List Char → Prop where
  | close {first : Bool} {cs rest : List Char} (h : Blanks cs ('\x7d' :: rest)) :
    Members first cs [] rest
  | member {first : Bool} {cs raw behind after mid more rest : List Char} {value : Form}
    {members : List (List Char × Form)} (hb : Between first cs ('"' :: (raw ++ '"' :: behind)))
    (hr : Raw raw) (hc : Blanks behind (':' :: after)) (hm : Blanks after mid)
    (hv : Value mid value more) (h : Members false more members rest) :
    Members first cs ((raw, value) :: members) rest

end

/-- A `text` of the form `f`: blanks may stand in front of it and behind it. -/
def TextOf (text : String) (f : Form) : Prop :=
  ∃ cs rest, Blanks text.toList cs ∧ Value cs f rest ∧ Blanks rest []

/-! ### What stands around a value -/

theorem Value.head {cs rest : List Char} {f : Form} (h : Value cs f rest) :
    ∃ c more, cs = c :: more ∧ isBlank c = false ∧ c ≠ ']' := by
  have hdigit : ∀ {c : Char}, c.isDigit = true → isBlank c = false ∧ c ≠ ']' := by
    intro c hc
    constructor
    · simp only [isBlank, Bool.or_eq_false_iff, decide_eq_false_iff_not]
      refine ⟨⟨⟨?_, ?_⟩, ?_⟩, ?_⟩ <;> (rintro rfl; exact absurd hc (by decide))
    · rintro rfl
      exact absurd hc (by decide)
  cases h with
  | nullWord => exact ⟨_, _, rfl, by decide, by decide⟩
  | trueWord => exact ⟨_, _, rfl, by decide, by decide⟩
  | falseWord => exact ⟨_, _, rfl, by decide, by decide⟩
  | number h =>
    rcases h with h | ⟨more, rfl, -⟩
    · obtain ⟨c, more, rfl, hc⟩ := h.head
      exact ⟨c, _, rfl, hdigit hc⟩
    · exact ⟨_, _, rfl, by decide, by decide⟩
  | string => exact ⟨_, _, rfl, by decide, by decide⟩
  | array => exact ⟨_, _, rfl, by decide, by decide⟩
  | object => exact ⟨_, _, rfl, by decide, by decide⟩

theorem Value.eq_null {more rest : List Char} {f : Form} (h : Value ('n' :: more) f rest) :
    f = .null := by
  generalize hcs : 'n' :: more = cs at h
  cases h with
  | nullWord => rfl
  | number h =>
    rcases h with h | ⟨raw, rfl, -⟩
    · obtain ⟨c, raw, rfl, hc⟩ := h.head
      obtain ⟨rfl, -⟩ := List.cons.inj hcs
      exact absurd hc (by decide)
    · exact absurd (List.cons.inj hcs).1 (by decide)
  | _ => exact absurd (List.cons.inj hcs).1 (by decide)

/-- What stands behind a member, `more`, is shorter than the text that begins with it. -/
theorem length_lt_of_member {first : Bool} {cs raw behind after mid more : List Char}
    (hb : Between first cs ('"' :: (raw ++ '"' :: behind))) (hc : Blanks behind (':' :: after))
    (hm : Blanks after mid) (hlt : more.length < mid.length) : more.length < cs.length := by
  have hkey := hb.length_le
  have hcolon := hc.length_le
  have hmid := hm.length_le
  simp only [List.length_cons, List.length_append] at hkey hcolon
  omega

mutual

/-- A `Value` is not empty. -/
theorem Value.length_lt {cs rest : List Char} {f : Form} :
    Value cs f rest → rest.length < cs.length
  | .nullWord _ | .trueWord _ | .falseWord _ => by
    simp only [List.length_cons]
    omega
  | .number h _ => by
    rcases h with h | ⟨more, rfl, -⟩
    · obtain ⟨c, more, rfl, -⟩ := h.head
      simp only [List.cons_append, List.length_cons, List.length_append]
      omega
    · simp only [List.cons_append, List.length_cons, List.length_append]
      omega
  | .string _ _ => by
    simp only [List.length_cons, List.length_append]
    omega
  | .array h => Nat.lt_succ_of_lt h.length_lt
  | .object h => Nat.lt_succ_of_lt h.length_lt

theorem Items.length_lt {first : Bool} {cs rest : List Char} {items : List Form} :
    Items first cs items rest → rest.length < cs.length
  | .close h => h.length_le
  | .item hb hv h => Nat.lt_of_lt_of_le (Nat.lt_trans h.length_lt hv.length_lt) hb.length_le

theorem Members.length_lt {first : Bool} {cs rest : List Char}
    {members : List (List Char × Form)} : Members first cs members rest → rest.length < cs.length
  | .close h => h.length_le
  | .member hb _ hc hm hv h =>
    Nat.lt_trans h.length_lt (length_lt_of_member hb hc hm hv.length_lt)

end

theorem Blanks.clear {cs rest : List Char} (h : Blanks cs rest) (hrest : Clear rest) : Clear cs := by
  obtain ⟨front, rfl, hfront⟩ := h
  cases front with
  | nil => exact hrest
  | cons b front =>
    have hblank := hfront b List.mem_cons_self
    simp only [isBlank, Bool.or_eq_true, decide_eq_true_iff] at hblank
    intro c hc
    obtain rfl : b = c := by simpa using hc
    rcases hblank with ((rfl | rfl) | rfl) | rfl
    all_goals decide

/-- **No number goes on behind an item** of an array: the text of further `Items` is `Clear`. -/
theorem Items.clear {cs rest : List Char} {items : List Form} (h : Items false cs items rest) :
    Clear cs := by
  cases h with
  | close h => exact h.clear (by simp [Clear])
  | item hb =>
    obtain ⟨more, hcomma, -⟩ := hb
    exact hcomma.clear (by simp [Clear])

theorem Members.clear {cs rest : List Char} {members : List (List Char × Form)}
    (h : Members false cs members rest) : Clear cs := by
  cases h with
  | close h => exact h.clear (by simp [Clear])
  | member hb =>
    obtain ⟨more, hcomma, -⟩ := hb
    exact hcomma.clear (by simp [Clear])

end FlowMigration.Json
