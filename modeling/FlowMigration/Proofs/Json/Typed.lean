import FlowMigration.Json.Typed
import FlowMigration.Proofs.Json.Skipping
import Mathlib.Data.List.Forall2

/-!
# Values of known forms

The readers of values whose form is known in advance, against the grammar.

* `readString_eq_ok`: a string is read as what it spells.
* `Reads`: a reader takes the values of some forms off the front of a text, and no others.
* `reads_readText`, `reads_readOptional`, `reads_readTextDict`: texts, values or `null`, and objects
  of texts.
-/

namespace FlowMigration.Json

variable {cs rest : List Char}

/-! ## Strings -/

theorem readUnicode_eq_ok {x : Char} :
    readUnicode cs = .ok (x, rest) ↔ ∃ esc, cs = esc ++ rest ∧ Escape ('u' :: esc) x := by
  constructor
  · intro h
    rw [readUnicode, bind_eq_ok_iff] at h
    obtain ⟨⟨n, more⟩, hhex, h⟩ := h
    obtain ⟨digits, rfl, hn⟩ := readHex_eq_ok.1 hhex
    dsimp only at h
    split at h
    · cases h
    · next ht =>
      split at h
      · next hl =>
        cases h
        exact ⟨digits, rfl, .number hn (by simpa using hl) (by simpa using ht)⟩
      · next hl =>
        split at h
        · cases h
        · cases h
        · rw [bind_eq_ok_iff] at h
          obtain ⟨⟨m, behind⟩, hhex', h⟩ := h
          obtain ⟨low, rfl, hm⟩ := readHex_eq_ok.1 hhex'
          dsimp only at h
          split at h
          · next ht' =>
            obtain ⟨rfl, rfl⟩ := Prod.mk.inj (Except.ok.inj h)
            exact ⟨digits ++ '\\' :: 'u' :: low, by simp, .pair hn (by simpa using hl) hm ht'⟩
          · cases h
        · cases h
        · cases h
  · rintro ⟨esc, rfl, h⟩
    cases h with
    | short hx => simp [escapes] at hx
    | number hn hl ht =>
      refine bind_eq_ok_iff.2 ⟨_, readHex_eq_ok.2 ⟨_, rfl, hn⟩, ?_⟩
      simp [hl, ht]
    | @pair high low n m hn hl hm ht =>
      have ht' : isTrailing n = false := by
        simp [isLeading, isTrailing] at hl ⊢
        omega
      rw [List.append_assoc, List.cons_append, List.cons_append]
      refine bind_eq_ok_iff.2 ⟨_, readHex_eq_ok.2 ⟨_, rfl, hn⟩, ?_⟩
      simp only [ht', hl, Bool.not_true, Bool.false_eq_true, if_false]
      exact bind_eq_ok_iff.2 ⟨_, readHex_eq_ok.2 ⟨_, rfl, hm⟩, by simp [ht]⟩

theorem readEscape_eq_ok {x : Char} :
    readEscape cs = .ok (x, rest) ↔ ∃ esc, cs = esc ++ rest ∧ Escape esc x := by
  constructor
  · intro h
    have hshort : ∀ {c x : Char} {more : List Char}, (c, x) ∈ escapes → more = rest →
        ∃ esc, c :: more = esc ++ rest ∧ Escape esc x :=
      fun {c} _ _ hx he => ⟨[c], congrArg (c :: ·) he, .short hx⟩
    unfold readEscape at h
    split at h
    case h_10 =>
      obtain ⟨esc, rfl, hesc⟩ := readUnicode_eq_ok.1 h
      exact ⟨'u' :: esc, rfl, hesc⟩
    all_goals
      cases h
    all_goals exact hshort (by decide) rfl
  · rintro ⟨esc, rfl, h⟩
    cases h with
    | short hx =>
      simp only [escapes, List.mem_cons, Prod.mk.injEq, List.not_mem_nil, or_false] at hx
      rcases hx with h | h | h | h | h | h | h | h
      all_goals
        obtain ⟨rfl, rfl⟩ := h
        rfl
    | number hn hl ht => exact readUnicode_eq_ok.2 ⟨_, rfl, .number hn hl ht⟩
    | pair hn hl hm ht => exact readUnicode_eq_ok.2 ⟨_, rfl, .pair hn hl hm ht⟩

theorem readChars_sound {fuel : Nat} {text : List Char} (h : readChars fuel cs = .ok (text, rest)) :
    ∃ raw, cs = raw ++ '"' :: rest ∧ Spells raw text := by
  induction fuel generalizing cs text with
  | zero => cases h
  | succ fuel ih =>
    unfold readChars at h
    split at h
    · cases h
    · cases h
      exact ⟨[], rfl, .nil⟩
    · simp only [bind_eq_ok_iff, Prod.exists] at h
      obtain ⟨x, more, hesc, text, after, hmore, h⟩ := h
      cases h
      obtain ⟨raw, rfl, hraw⟩ := ih hmore
      obtain ⟨esc, rfl, hx⟩ := readEscape_eq_ok.1 hesc
      exact ⟨_, by simp, .escape hx hraw⟩
    · next hq hb =>
      split at h
      · cases h
      · next hc =>
        simp only [bind_eq_ok_iff, Prod.exists] at h
        obtain ⟨text, after, hmore, h⟩ := h
        cases h
        obtain ⟨raw, rfl, hraw⟩ := ih hmore
        exact ⟨_, rfl, .plain hq hb hc hraw⟩

theorem readChars_complete {raw text : List Char} (h : Spells raw text) (rest : List Char)
    {fuel : Nat} (hf : raw.length < fuel) :
    readChars fuel (raw ++ '"' :: rest) = .ok (text, rest) := by
  induction h generalizing fuel with
  | nil =>
    obtain ⟨fuel, rfl⟩ := Nat.exists_eq_succ_of_ne_zero (Nat.ne_zero_of_lt hf)
    rfl
  | plain hq hb hc _ ih =>
    obtain ⟨fuel, rfl⟩ := Nat.exists_eq_succ_of_ne_zero (Nat.ne_zero_of_lt hf)
    rw [List.cons_append, readChars.eq_5 _ _ _ hq hb, if_neg hc]
    exact bind_eq_ok_iff.2 ⟨_, ih (Nat.lt_of_succ_lt_succ hf), rfl⟩
  | escape hx _ ih =>
    obtain ⟨fuel, rfl⟩ := Nat.exists_eq_succ_of_ne_zero (Nat.ne_zero_of_lt hf)
    simp only [List.length_cons, List.length_append] at hf
    rw [List.cons_append, List.append_assoc]
    exact bind_eq_ok_iff.2 ⟨_, readEscape_eq_ok.2 ⟨_, rfl, hx⟩,
      bind_eq_ok_iff.2 ⟨_, ih (by omega), rfl⟩⟩

/-- **A string is read** as the `text` that its characters spell. -/
theorem readString_eq_ok {text : String} :
    readString cs = .ok (text, rest) ↔ ∃ raw, cs = raw ++ '"' :: rest ∧ Spells raw text.toList := by
  unfold readString
  rw [bind_eq_ok_iff]
  constructor
  · rintro ⟨⟨chars, more⟩, hchars, h⟩
    cases h
    rw [String.toList_ofList]
    exact readChars_sound hchars
  · rintro ⟨raw, rfl, h⟩
    refine ⟨_, readChars_complete h rest (by simp only [List.length_append]; omega), ?_⟩
    dsimp only
    rw [String.ofList_toList]

/-! ## Separators -/

/-- **The next key** stands behind a comma unless it is the `first`, and in front of no brace. -/
theorem nextKey_eq_ok {first more : Bool} : nextKey first cs = .ok (more, rest) ↔
    if more then Between first cs ('"' :: rest)
    else ∃ behind, rest = '\x7d' :: behind ∧ Blanks cs rest := by
  constructor
  · intro h
    unfold nextKey at h
    split at h
    · cases h
    · next he =>
      cases h
      exact ⟨_, rfl, (skipBlanks_eq_cons.1 he).1⟩
    · next he =>
      have hb := (skipBlanks_eq_cons.1 he).1
      split at h
      · next hfirst =>
        subst hfirst
        split at h
        · next hquote =>
          subst hquote
          cases h
          exact hb
        · cases h
      · next hfirst =>
        rw [Bool.not_eq_true] at hfirst
        subst hfirst
        split at h
        · next hcomma =>
          subst hcomma
          split at h
          · cases h
          · next he' =>
            cases h
            exact ⟨_, hb, (skipBlanks_eq_cons.1 he').1⟩
          · cases h
          · cases h
        · cases h
  · intro h
    cases more with
    | false =>
      obtain ⟨behind, rfl, hb⟩ := h
      rw [nextKey, skipBlanks_eq_cons.2 ⟨hb, by decide⟩]
      rfl
    | true =>
      cases first with
      | true =>
        rw [nextKey, skipBlanks_eq_cons.2 ⟨h, by decide⟩]
        rfl
      | false =>
        obtain ⟨after, hcomma, hb⟩ := h
        have hskip : skipBlanks cs = ',' :: after := skipBlanks_eq_cons.2 ⟨hcomma, by decide⟩
        have hskip' : skipBlanks after = '"' :: rest := skipBlanks_eq_cons.2 ⟨hb, by decide⟩
        simp [nextKey, hskip, hskip']

/-- **The next item** stands behind a comma unless it is the `first`; what is no bracket is one. -/
theorem nextItem_eq_ok {first more : Bool} : nextItem first cs = .ok (more, rest) ↔
    if more then Between first cs rest ∧
      ∃ c behind, rest = c :: behind ∧ isBlank c = false ∧ c ≠ ']'
    else ∃ behind, rest = ']' :: behind ∧ Blanks cs rest := by
  constructor
  · intro h
    unfold nextItem at h
    split at h
    · cases h
    · next he =>
      cases h
      exact ⟨_, rfl, (skipBlanks_eq_cons.1 he).1⟩
    · next hne he =>
      obtain ⟨hb, hblank⟩ := skipBlanks_eq_cons.1 he
      split at h
      · next hfirst =>
        subst hfirst
        cases h
        exact ⟨hb, _, _, rfl, hblank, hne⟩
      · next hfirst =>
        rw [Bool.not_eq_true] at hfirst
        subst hfirst
        split at h
        · next hcomma =>
          subst hcomma
          split at h
          · cases h
          · cases h
          · next mid hnil hclose =>
            cases h
            obtain ⟨c, behind, hmid⟩ := List.exists_cons_of_ne_nil hnil
            obtain ⟨hb', hblank'⟩ := skipBlanks_eq_cons.1 hmid
            refine ⟨⟨_, hb, hmid ▸ hb'⟩, c, behind, hmid, hblank', ?_⟩
            rintro rfl
            exact hclose _ hmid
        · cases h
  · intro h
    cases more with
    | false =>
      obtain ⟨behind, rfl, hb⟩ := h
      rw [nextItem, skipBlanks_eq_cons.2 ⟨hb, by decide⟩]
      rfl
    | true =>
      obtain ⟨hbetween, c, behind, rfl, hblank, hc⟩ := h
      cases first with
      | true =>
        rw [nextItem, skipBlanks_eq_cons.2 ⟨hbetween, hblank⟩]
        split
        · contradiction
        · next he => exact absurd (List.cons.inj he).1 hc
        · next he => simp [he]
      | false =>
        obtain ⟨after, hcomma, hb⟩ := hbetween
        have hskip : skipBlanks cs = ',' :: after := skipBlanks_eq_cons.2 ⟨hcomma, by decide⟩
        have hskip' : skipBlanks after = c :: behind := skipBlanks_eq_cons.2 ⟨hb, hblank⟩
        simp [nextItem, hskip, hskip', hc]

theorem endList_eq_ok {u : Unit} : endList cs = .ok (u, rest) ↔ Blanks cs (']' :: rest) := by
  unfold endList
  constructor
  · intro h
    split at h
    · cases h
    · next he =>
      cases h
      exact (skipBlanks_eq_cons.1 he).1
    · split at h <;> cases h
    · cases h
  · intro h
    rw [skipBlanks_eq_cons.2 ⟨h, by decide⟩]
    rfl

theorem readEnd_eq_ok {u : Unit} : readEnd cs = .ok (u, rest) ↔ Blanks cs [] ∧ rest = [] := by
  unfold readEnd
  constructor
  · intro h
    split at h
    · next he =>
      cases h
      exact ⟨skipBlanks_eq_nil.1 he, rfl⟩
    · cases h
  · rintro ⟨h, rfl⟩
    rw [skipBlanks_eq_nil.2 h]

/-! ## Values -/

/-- A reader that takes the values of some forms off the front of a text, and no others: what the
form of a value `Says` tells what is read. -/
def Reads {α : Type} (read : JsonReader α) (Says : Form → α → Prop) : Prop :=
  ∀ cs rest a, read cs = .ok (a, rest) ↔ ∃ mid f, Blanks cs mid ∧ Value mid f rest ∧ Says f a

/-- A string `f`, and the `text` that it stands for. -/
def IsText (f : Form) (text : String) : Prop :=
  ∃ raw, f = .string raw ∧ Spells raw text.toList

/-- `null` says nothing. -/
inductive Optional {α : Type} (Says : Form → α → Prop) : Form → Option α → Prop where
  | null : Optional Says .null none
  | value {f : Form} {a : α} (h : Says f a) : Optional Says f (some a)

/-- A member `m` and the entry `e` that it makes. -/
structure IsEntry (m : List Char × Form) (e : String × String) : Prop where
  key : Spells m.1 e.1.toList
  value : IsText m.2 e.2

/-- An object `f` of texts; of several members with one key the last one counts in `dict`. -/
def IsTexts (f : Form) (dict : Dict String) : Prop :=
  ∃ members entries, f = .object members ∧ List.Forall₂ IsEntry members entries ∧
    dict = Dict.ofList entries

theorem unexpected_ne_ok {α : Type} {expected : String} {a : α} :
    unexpected expected cs ≠ .ok (a, rest) := by
  intro h
  unfold unexpected at h
  dsimp only at h
  split at h
  case h_6 | h_7 | h_9 => cases h
  case h_8 =>
    split at h
    · obtain ⟨_, -, h⟩ := bind_eq_ok_iff.1 h
      cases h
    · cases h
  all_goals
    obtain ⟨_, -, h⟩ := bind_eq_ok_iff.1 h
    cases h

theorem reads_readText : Reads readText IsText := by
  intro cs rest text
  constructor
  · intro h
    unfold readText at h
    split at h
    · cases h
    · next he =>
      obtain ⟨raw, rfl, hraw⟩ := readString_eq_ok.1 h
      exact ⟨_, .string raw, (skipBlanks_eq_cons.1 he).1, .string hraw.raw _, raw, rfl, hraw⟩
    · exact absurd h unexpected_ne_ok
  · rintro ⟨mid, _, hb, hvalue, raw, rfl, hraw⟩
    cases hvalue
    rw [readText, skipBlanks_eq_cons.2 ⟨hb, by decide⟩]
    exact readString_eq_ok.2 ⟨raw, rfl, hraw⟩

theorem reads_readOptional {α : Type} {read : JsonReader α} {Says : Form → α → Prop}
    (h : Reads read Says) (hnull : ∀ a, ¬Says .null a) :
    Reads (readOptional read) (Optional Says) := by
  intro cs rest v
  constructor
  · intro hread
    unfold readOptional at hread
    split at hread
    · next he =>
      rw [bind_eq_ok_iff] at hread
      obtain ⟨⟨_, more⟩, hword, hread⟩ := hread
      cases hread
      obtain rfl := readWord_eq_ok.1 hword
      exact ⟨_, .null, (skipBlanks_eq_cons.1 he).1, .nullWord _, .null⟩
    · rw [bind_eq_ok_iff] at hread
      obtain ⟨⟨a, more⟩, ha, hread⟩ := hread
      cases hread
      obtain ⟨mid, f, hb, hvalue, hform⟩ := (h _ _ _).1 ha
      exact ⟨mid, f, (blanks_skipBlanks cs).trans hb, hvalue, .value hform⟩
  · rintro ⟨mid, f, hb, hvalue, hform⟩
    cases hform with
    | null =>
      cases hvalue
      rw [readOptional, skipBlanks_eq_cons.2 ⟨hb, by decide⟩]
      rfl
    | @value _ a hform =>
      obtain ⟨c, more, rfl, hblank, -⟩ := hvalue.head
      rw [readOptional, skipBlanks_eq_cons.2 ⟨hb, hblank⟩]
      split
      · next he =>
        obtain ⟨rfl, -⟩ := List.cons.inj he
        obtain rfl := hvalue.eq_null
        exact absurd hform (hnull a)
      · exact bind_eq_ok_iff.2 ⟨_, (h _ _ _).2 ⟨_, f, .refl _, hvalue, hform⟩, rfl⟩

theorem readTexts_sound {fuel : Nat} {first : Bool} {dict dict' : Dict String}
    (h : readTexts fuel first dict cs = .ok (dict', rest)) :
    ∃ members entries, Members first cs members rest ∧ List.Forall₂ IsEntry members entries ∧
      dict' = entries.foldl (fun dict e => dict.insert e.1 e.2) dict := by
  induction fuel generalizing first dict cs with
  | zero => cases h
  | succ fuel ih =>
    rw [readTexts, bind_eq_ok_iff] at h
    obtain ⟨⟨more, after⟩, hkey, h⟩ := h
    have hkey := nextKey_eq_ok.1 hkey
    cases more with
    | false =>
      obtain ⟨behind, rfl, hb⟩ := hkey
      cases h
      exact ⟨[], [], .close hb, .nil, rfl⟩
    | true =>
      simp only [if_true, bind_eq_ok_iff, Prod.exists] at h
      obtain ⟨key, behind, hstring, _, _, hcolon, text, more, htext, h⟩ := h
      obtain ⟨raw, rfl, hraw⟩ := readString_eq_ok.1 hstring
      obtain ⟨mid, f, hmid, hf, hform⟩ := (reads_readText _ _ _).1 htext
      obtain ⟨members, entries, hmembers, hentries, rfl⟩ := ih h
      exact ⟨(raw, f) :: members, (key, text) :: entries,
        .member hkey hraw.raw (readColon_eq_ok.1 hcolon) hmid hf hmembers,
        .cons ⟨hraw, hform⟩ hentries, rfl⟩

theorem readTexts_complete {first : Bool} {members : List (List Char × Form)}
    {entries : List (String × String)} (hentries : List.Forall₂ IsEntry members entries)
    (h : Members first cs members rest) (dict : Dict String) {fuel : Nat} (hf : cs.length < fuel) :
    readTexts fuel first dict cs =
      .ok (entries.foldl (fun dict e => dict.insert e.1 e.2) dict, rest) := by
  induction hentries generalizing first cs dict fuel with
  | nil =>
    obtain ⟨fuel, rfl⟩ := Nat.exists_eq_succ_of_ne_zero (Nat.ne_zero_of_lt hf)
    cases h with
    | close h =>
      exact bind_eq_ok_iff.2 ⟨(false, _), nextKey_eq_ok.2 ⟨_, rfl, h⟩, rfl⟩
  | cons hentry _ ih =>
    obtain ⟨fuel, rfl⟩ := Nat.exists_eq_succ_of_ne_zero (Nat.ne_zero_of_lt hf)
    cases h with
    | member hb _ hc hm hv h =>
      have hlt := length_lt_of_member hb hc hm hv.length_lt
      refine bind_eq_ok_iff.2 ⟨(true, _), nextKey_eq_ok.2 hb, ?_⟩
      refine bind_eq_ok_iff.2 ⟨_, readString_eq_ok.2 ⟨_, rfl, hentry.key⟩, ?_⟩
      refine bind_eq_ok_iff.2 ⟨((), _), readColon_eq_ok.2 hc, ?_⟩
      refine bind_eq_ok_iff.2 ⟨_, (reads_readText _ _ _).2 ⟨_, _, hm, hv, hentry.value⟩, ?_⟩
      exact ih h _ (by omega)

theorem reads_readTextDict : Reads readTextDict IsTexts := by
  intro cs rest dict
  constructor
  · intro h
    unfold readTextDict at h
    split at h
    · cases h
    · next he =>
      obtain ⟨members, entries, hmembers, hentries, rfl⟩ := readTexts_sound h
      exact ⟨_, .object members, (skipBlanks_eq_cons.1 he).1, .object hmembers, members, entries, rfl,
        hentries, rfl⟩
    · exact absurd h unexpected_ne_ok
  · rintro ⟨mid, _, hb, hvalue, members, entries, rfl, hentries, rfl⟩
    cases hvalue with
    | object h =>
      rw [readTextDict, skipBlanks_eq_cons.2 ⟨hb, by decide⟩]
      exact readTexts_complete hentries h {} (Nat.lt_succ_self _)

/-- **A text or `null`** is read, and **an object of texts or `null`**. -/
theorem reads_readName : Reads (readOptional readText) (Optional IsText) :=
  reads_readOptional reads_readText fun _ ⟨_, h, _⟩ => nomatch h

theorem reads_readDependencies : Reads (readOptional readTextDict) (Optional IsTexts) :=
  reads_readOptional reads_readTextDict fun _ ⟨_, _, h, _⟩ => nomatch h

end FlowMigration.Json
