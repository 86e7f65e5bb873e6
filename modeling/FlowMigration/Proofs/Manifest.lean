import FlowMigration.Proofs.Json.Typed
import FlowMigration.Proofs.Registry

/-!
# What a manifest is

The texts that are read as manifests, by the values that they are texts of.

* `Once`: what a member says that stands there once at most.
* `IsManifest`: the values that are manifests, and what they say.
* `reads_read`, `parse_eq_ok`: a text is read as a manifest if it is the text of such a value.
* `ManifestRecord.reads_or_flagged`: a file with any other content is flagged, and owns no name.
-/

namespace FlowMigration.Manifest

open Json (Form Spells Blanks Between Value Items Members Clear TextOf Reads IsText IsTexts Optional)

variable {α : Type} {Says : Form → α → Prop} {cs rest : List Char}

/-! ## Members -/

/-- What the values of a member say, by `Says`, that stands there once at most: nothing where it is
missing. -/
inductive Once (Says : Form → α → Prop) : List Form → Option α → Prop where
  | missing : Once Says [] none
  | present {f : Form} {v : Option α} (h : Optional Says f v) : Once Says [f] v

theorem once_nil {v : Option α} : Once Says [] v ↔ v = none :=
  ⟨fun h => by cases h; rfl, fun h => h ▸ .missing⟩

theorem once_singleton {f : Form} {v : Option α} : Once Says [f] v ↔ Optional Says f v :=
  ⟨fun h => by cases h; assumption, .present⟩

/-- The member `m`, and the name `n` that its key stands for. -/
structure Named (m : List Char × Form) (n : String × Form) : Prop where
  key : Spells m.1 n.1.toList
  value : n.2 = m.2

/-- The values of the members with the name `key`. -/
def values (key : String) (named : List (String × Form)) : List Form :=
  (named.filter fun n => n.1 = key).map (·.2)

/-- What the members of an object say: the four of a manifest stand there once at most, each `null`
or of its form. -/
def MembersSay (members : List (List Char × Form)) (m : Manifest) : Prop :=
  ∃ named, List.Forall₂ Named members named ∧ Once IsText (values "name" named) m.name ∧
    Once IsTexts (values "dependencies" named) m.dependencies ∧
    Once IsTexts (values "devDependencies" named) m.devDependencies ∧
    Once IsTexts (values "peerDependencies" named) m.peerDependencies

/-- What the `items` of an array say, which are the members of a manifest in their order. -/
structure ItemsSay (items : List Form) (m : Manifest) : Prop where
  length_le : items.length ≤ 4
  name : Once IsText items[0]?.toList m.name
  dependencies : Once IsTexts items[1]?.toList m.dependencies
  devDependencies : Once IsTexts items[2]?.toList m.devDependencies
  peerDependencies : Once IsTexts items[3]?.toList m.peerDependencies

/-- The values that are manifests, an object by `MembersSay` or an array by `ItemsSay`. -/
inductive IsManifest : Form → Manifest → Prop where
  | object {members : List (List Char × Form)} {m : Manifest} (h : MembersSay members m) :
    IsManifest (.object members) m
  | array {items : List Form} {m : Manifest} (h : ItemsSay items m) : IsManifest (.array items) m

/-! ## Members one by one -/

/-- What a member makes of what has been read of `slot`. -/
inductive Enters (Says : Form → α → Prop) (slot key : String) (f : Form) :
    Option (Option α) → Option (Option α) → Prop where
  | value {v : Option α} (hk : key = slot) (h : Optional Says f v) :
    Enters Says slot key f none (some v)
  | other {before : Option (Option α)} (hk : key ≠ slot) : Enters Says slot key f before before

theorem enters_pos {slot key : String} {f : Form} {before after : Option (Option α)}
    (hk : key = slot) :
    Enters Says slot key f before after ↔
      before = none ∧ ∃ v, Optional Says f v ∧ after = some v := by
  constructor
  · intro h
    cases h with
    | value _ h => exact ⟨rfl, _, h, rfl⟩
    | other hne => exact absurd hk hne
  · rintro ⟨rfl, v, h, rfl⟩
    exact .value hk h

theorem enters_neg {slot key : String} {f : Form} {before after : Option (Option α)}
    (hk : key ≠ slot) :
    Enters Says slot key f before after ↔ after = before := by
  constructor
  · intro h
    cases h with
    | value he => exact absurd he hk
    | other => rfl
  · rintro rfl
    exact .other hk

/-- What members one after the other make of what has been read of `slot`, each by `Enters`. -/
inductive Grows (Says : Form → α → Prop) (slot : String) :
    List (String × Form) → Option (Option α) → Option (Option α) → Prop where
  | nil (before : Option (Option α)) : Grows Says slot [] before before
  | cons {n : String × Form} {named : List (String × Form)} {before next after : Option (Option α)}
    (hn : Enters Says slot n.1 n.2 before next) (h : Grows Says slot named next after) :
    Grows Says slot (n :: named) before after

theorem values_cons (slot : String) (n : String × Form) (named : List (String × Form)) :
    values slot (n :: named) =
      if n.1 = slot then n.2 :: values slot named else values slot named := by
  unfold values
  rw [List.filter_cons]
  by_cases hk : n.1 = slot <;> simp [hk]

/-- Once a member has been read, it does not stand there again, or nothing `Grows` from there. -/
theorem grows_some {slot : String} {named : List (String × Form)} {v : Option α}
    {after : Option (Option α)} :
    Grows Says slot named (some v) after ↔ values slot named = [] ∧ after = some v := by
  induction named with
  | nil =>
    refine ⟨fun h => ?_, fun ⟨_, h⟩ => h ▸ .nil _⟩
    cases h
    exact ⟨rfl, rfl⟩
  | cons n named ih =>
    rw [values_cons]
    constructor
    · intro h
      cases h with
      | cons hn h =>
        cases hn with
        | other hk => rw [if_neg hk]; exact ih.1 h
    · intro h
      by_cases hk : n.1 = slot
      · rw [if_pos hk] at h
        exact absurd h.1 (by simp)
      · rw [if_neg hk] at h
        exact .cons (.other hk) (ih.2 h)

/-- **What is read of a member** is what its values say (`Once`). -/
theorem exists_grows {slot : String} {named : List (String × Form)} {v : Option α} :
    (∃ after, Grows Says slot named none after ∧ v = after.join) ↔
      Once Says (values slot named) v := by
  induction named with
  | nil =>
    rw [values, List.filter_nil, List.map_nil, once_nil]
    refine ⟨?_, fun h => ⟨none, .nil _, h⟩⟩
    rintro ⟨after, h, rfl⟩
    cases h
    rfl
  | cons n named ih =>
    rw [values_cons]
    by_cases hk : n.1 = slot
    · rw [if_pos hk]
      constructor
      · rintro ⟨after, h, rfl⟩
        cases h with
        | cons hn h =>
          cases hn with
          | value _ hf =>
            obtain ⟨hnone, rfl⟩ := grows_some.1 h
            rw [hnone]
            exact .present hf
          | other hne => exact absurd hk hne
      · intro h
        generalize hvalues : values slot named = more at h
        cases h with
        | present hf => exact ⟨some v, .cons (.value hk hf) (grows_some.2 ⟨hvalues, rfl⟩), rfl⟩
    · rw [if_neg hk, ← ih]
      refine exists_congr fun after => and_congr_left' ⟨fun h => ?_, fun h => .cons (.other hk) h⟩
      cases h with
      | cons hn h =>
        cases hn with
        | value he => exact absurd he hk
        | other => exact h

/-! ## Reading an object -/

/-- **The member `key` is read** behind a colon if it has not been read `before`. -/
theorem readMember_eq_ok {key : String} {before : Option α} {read : JsonReader α} {put : α → Fields}
    {after : Fields} (hread : Reads read Says) :
    readMember key before read put cs = .ok (after, rest) ↔
      before = none ∧ ∃ behind mid f v, Blanks cs (':' :: behind) ∧ Blanks behind mid ∧
        Value mid f rest ∧ Says f v ∧ after = put v := by
  unfold readMember
  cases before with
  | some a => simp [duplicate]
  | none =>
    simp only [Option.isSome_none, Bool.false_eq_true, if_false, true_and, bind_eq_ok_iff,
      Prod.exists, Json.readColon_eq_ok]
    constructor
    · rintro ⟨_, behind, hc, v, _, hv, h⟩
      obtain ⟨rfl, rfl⟩ := Prod.mk.inj (Except.ok.inj h)
      obtain ⟨mid, f, hm, hv, hform⟩ := (hread _ _ _).1 hv
      exact ⟨behind, mid, f, v, hc, hm, hv, hform, rfl⟩
    · rintro ⟨behind, mid, f, v, hc, hm, hv, hform, rfl⟩
      exact ⟨(), behind, hc, v, rest, (hread _ _ _).2 ⟨mid, f, hm, hv, hform⟩, rfl⟩

/-- What the member `key` with the value `f` makes of the fields. -/
structure FieldEnters (key : String) (f : Form) (before after : Fields) : Prop where
  name : Enters IsText "name" key f before.name after.name
  dependencies : Enters IsTexts "dependencies" key f before.dependencies after.dependencies
  devDependencies :
    Enters IsTexts "devDependencies" key f before.devDependencies after.devDependencies
  peerDependencies :
    Enters IsTexts "peerDependencies" key f before.peerDependencies after.peerDependencies

/-- What members one after the other make of the fields, each by `FieldEnters`. -/
structure FieldsGrow (named : List (String × Form)) (before after : Fields) : Prop where
  name : Grows IsText "name" named before.name after.name
  dependencies : Grows IsTexts "dependencies" named before.dependencies after.dependencies
  devDependencies :
    Grows IsTexts "devDependencies" named before.devDependencies after.devDependencies
  peerDependencies :
    Grows IsTexts "peerDependencies" named before.peerDependencies after.peerDependencies

theorem fieldsGrow_nil (fields : Fields) : FieldsGrow [] fields fields :=
  ⟨.nil _, .nil _, .nil _, .nil _⟩

theorem FieldsGrow.eq {before after : Fields} (h : FieldsGrow [] before after) : after = before := by
  obtain ⟨hname, hdeps, hdev, hpeer⟩ := h
  cases before
  cases after
  cases hname
  cases hdeps
  cases hdev
  cases hpeer
  rfl

theorem fieldsGrow_cons {n : String × Form} {named : List (String × Form)} {before after : Fields} :
    FieldsGrow (n :: named) before after ↔
      ∃ next, FieldEnters n.1 n.2 before next ∧ FieldsGrow named next after := by
  constructor
  · rintro ⟨hname, hdeps, hdev, hpeer⟩
    cases hname with
    | cons hname hnames =>
    cases hdeps with
    | cons hdeps hdepss =>
    cases hdev with
    | cons hdev hdevs =>
    cases hpeer with
    | cons hpeer hpeers =>
    exact ⟨⟨_, _, _, _⟩, ⟨hname, hdeps, hdev, hpeer⟩, hnames, hdepss, hdevs, hpeers⟩
  · rintro ⟨next, hn, h⟩
    exact ⟨.cons hn.name h.name, .cons hn.dependencies h.dependencies,
      .cons hn.devDependencies h.devDependencies, .cons hn.peerDependencies h.peerDependencies⟩

/-- **A member that `readField` reads** makes of the fields what its value says. -/
theorem readField_sound {key : String} {before after : Fields}
    (h : readField key before cs = .ok (after, rest)) :
    ∃ behind mid f, Blanks cs (':' :: behind) ∧ Blanks behind mid ∧ Value mid f rest ∧
      FieldEnters key f before after := by
  by_cases hname : key = "name"
  · rw [readField, if_pos hname, readMember_eq_ok Json.reads_readName] at h
    obtain ⟨hnone, behind, mid, f, v, hc, hm, hv, hform, rfl⟩ := h
    subst hname
    exact ⟨behind, mid, f, hc, hm, hv, (enters_pos rfl).2 ⟨hnone, v, hform, rfl⟩, .other (by decide),
      .other (by decide), .other (by decide)⟩
  by_cases hdeps : key = "dependencies"
  · rw [readField, if_neg hname, if_pos hdeps, readMember_eq_ok Json.reads_readDependencies] at h
    obtain ⟨hnone, behind, mid, f, v, hc, hm, hv, hform, rfl⟩ := h
    subst hdeps
    exact ⟨behind, mid, f, hc, hm, hv, .other hname, (enters_pos rfl).2 ⟨hnone, v, hform, rfl⟩,
      .other (by decide), .other (by decide)⟩
  by_cases hdev : key = "devDependencies"
  · rw [readField, if_neg hname, if_neg hdeps, if_pos hdev,
      readMember_eq_ok Json.reads_readDependencies] at h
    obtain ⟨hnone, behind, mid, f, v, hc, hm, hv, hform, rfl⟩ := h
    subst hdev
    exact ⟨behind, mid, f, hc, hm, hv, .other hname, .other hdeps,
      (enters_pos rfl).2 ⟨hnone, v, hform, rfl⟩, .other (by decide)⟩
  by_cases hpeer : key = "peerDependencies"
  · rw [readField, if_neg hname, if_neg hdeps, if_neg hdev, if_pos hpeer,
      readMember_eq_ok Json.reads_readDependencies] at h
    obtain ⟨hnone, behind, mid, f, v, hc, hm, hv, hform, rfl⟩ := h
    exact ⟨behind, mid, f, hc, hm, hv, .other hname, .other hdeps, .other hdev,
      (enters_pos hpeer).2 ⟨hnone, v, hform, rfl⟩⟩
  · rw [readField, if_neg hname, if_neg hdeps, if_neg hdev, if_neg hpeer] at h
    simp only [bind_eq_ok_iff, Prod.exists, Json.readColon_eq_ok] at h
    obtain ⟨_, behind, hc, _, _, hskip, h⟩ := h
    cases h
    obtain ⟨mid, f, hm, hv⟩ := Json.skipValue_sound hskip
    exact ⟨behind, mid, f, hc, hm, hv, .other hname, .other hdeps, .other hdev, .other hpeer⟩

/-- **A member is read by `readField`** if it has not been read before and its value has its
form. -/
theorem readField_complete {key : String} {f : Form} {before after : Fields} {behind mid : List Char}
    (hc : Blanks cs (':' :: behind)) (hm : Blanks behind mid) (hv : Value mid f rest)
    (hrest : Clear rest) (h : FieldEnters key f before after) :
    readField key before cs = .ok (after, rest) := by
  obtain ⟨name, dependencies, devDependencies, peerDependencies⟩ := after
  obtain ⟨hn, hd, hv', hp⟩ := h
  by_cases hname : key = "name"
  · subst hname
    obtain ⟨hnone, v, hform, rfl⟩ := (enters_pos rfl).1 hn
    obtain rfl := (enters_neg (by decide)).1 hd
    obtain rfl := (enters_neg (by decide)).1 hv'
    obtain rfl := (enters_neg (by decide)).1 hp
    rw [readField, if_pos rfl, readMember_eq_ok Json.reads_readName]
    exact ⟨hnone, behind, mid, f, v, hc, hm, hv, hform, rfl⟩
  obtain rfl := (enters_neg hname).1 hn
  by_cases hdeps : key = "dependencies"
  · subst hdeps
    obtain ⟨hnone, v, hform, rfl⟩ := (enters_pos rfl).1 hd
    obtain rfl := (enters_neg (by decide)).1 hv'
    obtain rfl := (enters_neg (by decide)).1 hp
    rw [readField, if_neg hname, if_pos rfl, readMember_eq_ok Json.reads_readDependencies]
    exact ⟨hnone, behind, mid, f, v, hc, hm, hv, hform, rfl⟩
  obtain rfl := (enters_neg hdeps).1 hd
  by_cases hdev : key = "devDependencies"
  · subst hdev
    obtain ⟨hnone, v, hform, rfl⟩ := (enters_pos rfl).1 hv'
    obtain rfl := (enters_neg (by decide)).1 hp
    rw [readField, if_neg hname, if_neg hdeps, if_pos rfl,
      readMember_eq_ok Json.reads_readDependencies]
    exact ⟨hnone, behind, mid, f, v, hc, hm, hv, hform, rfl⟩
  obtain rfl := (enters_neg hdev).1 hv'
  by_cases hpeer : key = "peerDependencies"
  · obtain ⟨hnone, v, hform, rfl⟩ := (enters_pos hpeer).1 hp
    rw [readField, if_neg hname, if_neg hdeps, if_neg hdev, if_pos hpeer,
      readMember_eq_ok Json.reads_readDependencies]
    exact ⟨hnone, behind, mid, f, v, hc, hm, hv, hform, rfl⟩
  · obtain rfl := (enters_neg hpeer).1 hp
    rw [readField, if_neg hname, if_neg hdeps, if_neg hdev, if_neg hpeer]
    exact bind_eq_ok_iff.2 ⟨((), behind), Json.readColon_eq_ok.2 hc,
      bind_eq_ok_iff.2 ⟨_, Json.skipValue_complete hm hv hrest, rfl⟩⟩

theorem readMembers_sound {fuel : Nat} {first : Bool} {before after : Fields}
    (h : readMembers fuel first before cs = .ok (after, rest)) :
    ∃ members named, Members first cs members rest ∧ List.Forall₂ Named members named ∧
      FieldsGrow named before after := by
  induction fuel generalizing first before cs with
  | zero => cases h
  | succ fuel ih =>
    rw [readMembers, bind_eq_ok_iff] at h
    obtain ⟨⟨more, behind⟩, hkey, h⟩ := h
    have hkey := Json.nextKey_eq_ok.1 hkey
    cases more with
    | false =>
      obtain ⟨behind, rfl, hb⟩ := hkey
      cases h
      exact ⟨[], [], .close hb, .nil, fieldsGrow_nil _⟩
    | true =>
      simp only [if_true, bind_eq_ok_iff, Prod.exists] at h
      obtain ⟨key, _, hstring, next, _, hfield, h⟩ := h
      obtain ⟨raw, rfl, hraw⟩ := Json.readString_eq_ok.1 hstring
      obtain ⟨_, mid, f, hc, hm, hv, hf⟩ := readField_sound hfield
      obtain ⟨members, named, hmembers, hnamed, hgrow⟩ := ih h
      exact ⟨(raw, f) :: members, (key, f) :: named, .member hkey hraw.raw hc hm hv hmembers,
        .cons ⟨hraw, rfl⟩ hnamed, fieldsGrow_cons.2 ⟨next, hf, hgrow⟩⟩

theorem readMembers_complete {first : Bool} {members : List (List Char × Form)}
    {named : List (String × Form)} (hnamed : List.Forall₂ Named members named)
    (h : Members first cs members rest) {before after : Fields}
    (hgrow : FieldsGrow named before after) {fuel : Nat} (hf : cs.length < fuel) :
    readMembers fuel first before cs = .ok (after, rest) := by
  induction hnamed generalizing first cs before fuel with
  | nil =>
    obtain ⟨fuel, rfl⟩ := Nat.exists_eq_succ_of_ne_zero (Nat.ne_zero_of_lt hf)
    obtain rfl := hgrow.eq
    cases h with
    | close h => exact bind_eq_ok_iff.2 ⟨(false, _), Json.nextKey_eq_ok.2 ⟨_, rfl, h⟩, rfl⟩
  | cons hn _ ih =>
    obtain ⟨fuel, rfl⟩ := Nat.exists_eq_succ_of_ne_zero (Nat.ne_zero_of_lt hf)
    obtain ⟨next, hfield, hgrow⟩ := fieldsGrow_cons.1 hgrow
    cases h with
    | member hb _ hc hm hv h =>
      have hlt := Json.length_lt_of_member hb hc hm hv.length_lt
      refine bind_eq_ok_iff.2 ⟨(true, _), Json.nextKey_eq_ok.2 hb, ?_⟩
      refine bind_eq_ok_iff.2 ⟨_, Json.readString_eq_ok.2 ⟨_, rfl, hn.key⟩, ?_⟩
      refine bind_eq_ok_iff.2 ⟨(next, _), readField_complete hc hm hv h.clear ?_, ?_⟩
      · rw [hn.value] at hfield
        exact hfield
      · exact ih h hgrow (by omega)

/-- **The members that `readMembers` reads** up to the closing brace, and what they say. -/
theorem readMembers_eq_ok {m : Manifest} :
    (∃ fields, readMembers (cs.length + 1) true {} cs = .ok (fields, rest) ∧ m = fields.manifest) ↔
      ∃ members, Members true cs members rest ∧ MembersSay members m := by
  constructor
  · rintro ⟨fields, h, rfl⟩
    obtain ⟨members, named, hmembers, hnamed, hname, hdeps, hdev, hpeer⟩ := readMembers_sound h
    exact ⟨members, hmembers, named, hnamed, exists_grows.1 ⟨_, hname, rfl⟩,
      exists_grows.1 ⟨_, hdeps, rfl⟩, exists_grows.1 ⟨_, hdev, rfl⟩, exists_grows.1 ⟨_, hpeer, rfl⟩⟩
  · rintro ⟨members, hmembers, named, hnamed, hname, hdeps, hdev, hpeer⟩
    obtain ⟨name, hname, he⟩ := exists_grows.2 hname
    obtain ⟨dependencies, hdeps, he'⟩ := exists_grows.2 hdeps
    obtain ⟨devDependencies, hdev, he''⟩ := exists_grows.2 hdev
    obtain ⟨peerDependencies, hpeer, he'''⟩ := exists_grows.2 hpeer
    refine ⟨⟨name, dependencies, devDependencies, peerDependencies⟩,
      readMembers_complete hnamed hmembers ⟨hname, hdeps, hdev, hpeer⟩ (Nat.lt_succ_self _), ?_⟩
    rw [Fields.manifest, ← he, ← he', ← he'', ← he''']

/-! ## Reading an array -/

theorem readItem_sound {first : Bool} {read : JsonReader (Option α)} {v : Option (Option α)}
    (hread : Reads read (Optional Says)) (h : readItem first read cs = .ok (v, rest)) :
    (v = none ∧ Blanks cs rest) ∨
      ∃ a mid f, v = some a ∧ Between first cs mid ∧ Value mid f rest ∧ Optional Says f a := by
  rw [readItem, bind_eq_ok_iff] at h
  obtain ⟨⟨more, behind⟩, hitem, h⟩ := h
  have hitem := Json.nextItem_eq_ok.1 hitem
  cases more with
  | false =>
    cases h
    obtain ⟨_, -, hb⟩ := hitem
    exact .inl ⟨rfl, hb⟩
  | true =>
    simp only [if_true, bind_eq_ok_iff, Prod.exists] at h
    obtain ⟨a, _, ha, h⟩ := h
    cases h
    obtain ⟨mid, f, hm, hv, hform⟩ := (hread _ _ _).1 ha
    exact .inr ⟨a, mid, f, rfl, hitem.1.trans hm, hv, hform⟩

theorem readItem_close {first : Bool} {read : JsonReader (Option α)}
    (h : Blanks cs (']' :: rest)) : readItem first read cs = .ok (none, ']' :: rest) :=
  bind_eq_ok_iff.2 ⟨(false, _), Json.nextItem_eq_ok.2 ⟨rest, rfl, h⟩, rfl⟩

theorem readItem_item {first : Bool} {read : JsonReader (Option α)} {a : Option α} {f : Form}
    {mid : List Char} (hread : Reads read (Optional Says)) (hb : Between first cs mid)
    (hv : Value mid f rest) (h : Optional Says f a) : readItem first read cs = .ok (some a, rest) :=
  bind_eq_ok_iff.2 ⟨(true, mid), Json.nextItem_eq_ok.2 ⟨hb, hv.head⟩,
    bind_eq_ok_iff.2 ⟨_, (hread _ _ _).2 ⟨mid, f, .refl _, hv, h⟩, rfl⟩⟩

/-- **The items that `readItems` reads** up to the closing bracket, and what they say. -/
theorem readItems_sound {fields : Fields} {mid : List Char} (h : readItems cs = .ok (fields, mid))
    (hend : Blanks mid (']' :: rest)) :
    ∃ items, Items true cs items rest ∧ ItemsSay items fields.manifest := by
  have hclose : ∀ {first : Bool} {cs : List Char}, Blanks cs mid → Items first cs [] rest :=
    fun hb => .close (hb.trans hend)
  have hmissing : ∀ {β : Type} {Says : Form → β → Prop}, Once Says [] none := .missing
  rw [readItems, bind_eq_ok_iff] at h
  obtain ⟨⟨_, _⟩, hitem, h⟩ := h
  obtain ⟨rfl, hb₁⟩ | ⟨_, _, f₁, rfl, hb₁, hv₁, hs₁⟩ := readItem_sound Json.reads_readName hitem
  · cases h
    exact ⟨[], hclose hb₁, by simp, hmissing, hmissing, hmissing, hmissing⟩
  simp only [Option.isNone_some, Bool.false_eq_true, if_false, bind_eq_ok_iff] at h
  obtain ⟨⟨_, _⟩, hitem, h⟩ := h
  obtain ⟨rfl, hb₂⟩ | ⟨_, _, f₂, rfl, hb₂, hv₂, hs₂⟩ :=
    readItem_sound Json.reads_readDependencies hitem
  · cases h
    exact ⟨[f₁], .item hb₁ hv₁ (hclose hb₂), by simp, .present hs₁, hmissing, hmissing, hmissing⟩
  simp only [Option.isNone_some, Bool.false_eq_true, if_false, bind_eq_ok_iff] at h
  obtain ⟨⟨_, _⟩, hitem, h⟩ := h
  obtain ⟨rfl, hb₃⟩ | ⟨_, _, f₃, rfl, hb₃, hv₃, hs₃⟩ :=
    readItem_sound Json.reads_readDependencies hitem
  · cases h
    exact ⟨[f₁, f₂], .item hb₁ hv₁ (.item hb₂ hv₂ (hclose hb₃)), by simp, .present hs₁,
      .present hs₂, hmissing, hmissing⟩
  simp only [Option.isNone_some, Bool.false_eq_true, if_false, bind_eq_ok_iff] at h
  obtain ⟨⟨_, _⟩, hitem, h⟩ := h
  cases h
  obtain ⟨rfl, hb₄⟩ | ⟨_, _, f₄, rfl, hb₄, hv₄, hs₄⟩ :=
    readItem_sound Json.reads_readDependencies hitem
  · exact ⟨[f₁, f₂, f₃], .item hb₁ hv₁ (.item hb₂ hv₂ (.item hb₃ hv₃ (hclose hb₄))), by simp,
      .present hs₁, .present hs₂, .present hs₃, hmissing⟩
  · -- the reader stops behind four items, and only the bracket may follow
    exact ⟨[f₁, f₂, f₃, f₄],
      .item hb₁ hv₁ (.item hb₂ hv₂ (.item hb₃ hv₃ (.item hb₄ hv₄ (hclose (.refl _))))), by simp,
      .present hs₁, .present hs₂, .present hs₃, .present hs₄⟩

/-- An array of the members of a manifest is read up to its closing bracket, if its `items` say what
`m` is. -/
theorem readItems_complete {items : List Form} {m : Manifest} (h : Items true cs items rest)
    (hform : ItemsSay items m) :
    ∃ fields mid, readItems cs = .ok (fields, mid) ∧ Blanks mid (']' :: rest) ∧
      m = fields.manifest := by
  obtain ⟨name, dependencies, devDependencies, peerDependencies⟩ := m
  obtain ⟨hlen, h₁, h₂, h₃, h₄⟩ := hform
  have hbracket := Blanks.refl (']' :: rest)
  cases h with
  | close h =>
    obtain rfl := once_nil.1 h₁
    obtain rfl := once_nil.1 h₂
    obtain rfl := once_nil.1 h₃
    obtain rfl := once_nil.1 h₄
    exact ⟨_, _, bind_eq_ok_iff.2 ⟨_, readItem_close h, rfl⟩, hbracket, rfl⟩
  | item hb₁ hv₁ h =>
  have hname := readItem_item Json.reads_readName hb₁ hv₁ (once_singleton.1 h₁)
  cases h with
  | close h =>
    obtain rfl := once_nil.1 h₂
    obtain rfl := once_nil.1 h₃
    obtain rfl := once_nil.1 h₄
    exact ⟨_, _, bind_eq_ok_iff.2 ⟨_, hname, bind_eq_ok_iff.2 ⟨_, readItem_close h, rfl⟩⟩,
      hbracket, rfl⟩
  | item hb₂ hv₂ h =>
  have hdeps := readItem_item Json.reads_readDependencies hb₂ hv₂ (once_singleton.1 h₂)
  cases h with
  | close h =>
    obtain rfl := once_nil.1 h₃
    obtain rfl := once_nil.1 h₄
    exact ⟨_, _, bind_eq_ok_iff.2 ⟨_, hname, bind_eq_ok_iff.2 ⟨_, hdeps,
      bind_eq_ok_iff.2 ⟨_, readItem_close h, rfl⟩⟩⟩, hbracket, rfl⟩
  | item hb₃ hv₃ h =>
  have hdev := readItem_item Json.reads_readDependencies hb₃ hv₃ (once_singleton.1 h₃)
  cases h with
  | close h =>
    obtain rfl := once_nil.1 h₄
    exact ⟨_, _, bind_eq_ok_iff.2 ⟨_, hname, bind_eq_ok_iff.2 ⟨_, hdeps,
      bind_eq_ok_iff.2 ⟨_, hdev, bind_eq_ok_iff.2 ⟨_, readItem_close h, rfl⟩⟩⟩⟩,
      hbracket, rfl⟩
  | item hb₄ hv₄ h =>
  have hpeer := readItem_item Json.reads_readDependencies hb₄ hv₄ (once_singleton.1 h₄)
  cases h with
  | close h =>
    exact ⟨_, _, bind_eq_ok_iff.2 ⟨_, hname, bind_eq_ok_iff.2 ⟨_, hdeps,
      bind_eq_ok_iff.2 ⟨_, hdev, bind_eq_ok_iff.2 ⟨_, hpeer, rfl⟩⟩⟩⟩, h, rfl⟩
  | item => exact absurd hlen (by simp)

/-! ## Main statement -/

theorem reads_read : Reads read IsManifest := by
  intro cs rest m
  constructor
  · intro h
    unfold read at h
    split at h
    · cases h
    · next he =>
      simp only [bind_eq_ok_iff, Prod.exists, Json.endList_eq_ok] at h
      obtain ⟨fields, mid, hitems, _, _, hend, h⟩ := h
      cases h
      obtain ⟨items, hitems, hform⟩ := readItems_sound hitems hend
      exact ⟨_, _, (Json.skipBlanks_eq_cons.1 he).1, .array hitems, .array hform⟩
    · next he =>
      simp only [bind_eq_ok_iff, Prod.exists] at h
      obtain ⟨fields, _, hmembers, h⟩ := h
      cases h
      obtain ⟨members, hmembers, hform⟩ := readMembers_eq_ok.1 ⟨fields, hmembers, rfl⟩
      exact ⟨_, _, (Json.skipBlanks_eq_cons.1 he).1, .object hmembers, .object hform⟩
    · exact absurd h Json.unexpected_ne_ok
  · rintro ⟨mid, f, hb, hvalue, hform⟩
    cases hform with
    | object hform =>
      cases hvalue with
      | object hmembers =>
        obtain ⟨fields, hread, rfl⟩ := readMembers_eq_ok.2 ⟨_, hmembers, hform⟩
        rw [read, Json.skipBlanks_eq_cons.2 ⟨hb, by decide⟩]
        exact bind_eq_ok_iff.2 ⟨_, hread, rfl⟩
    | array hform =>
      cases hvalue with
      | array hitems =>
        obtain ⟨fields, mid, hread, hend, rfl⟩ := readItems_complete hitems hform
        rw [read, Json.skipBlanks_eq_cons.2 ⟨hb, by decide⟩]
        exact bind_eq_ok_iff.2 ⟨_, hread,
          bind_eq_ok_iff.2 ⟨((), rest), Json.endList_eq_ok.2 hend, rfl⟩⟩

/-- **A `text` is read as a manifest** if it is the text of a value that is one (`IsManifest`). -/
theorem parse_eq_ok {text : String} {m : Manifest} :
    parse text = .ok m ↔ ∃ f, TextOf text f ∧ IsManifest f m := by
  simp only [parse, bind_eq_ok_iff, Prod.exists, reads_read _ _ _, Json.readEnd_eq_ok]
  constructor
  · rintro ⟨m, rest, ⟨mid, f, hb, hv, hform⟩, _, _, ⟨hend, -⟩, h⟩
    cases h
    exact ⟨f, ⟨mid, rest, hb, hv, hend⟩, hform⟩
  · rintro ⟨f, ⟨mid, rest, hb, hv, hend⟩, hform⟩
    exact ⟨m, rest, ⟨mid, f, hb, hv, hform⟩, (), [], ⟨hend, rfl⟩, rfl⟩

/-- What other members hold is passed over. -/
example : (parse " \x7b\"v\": [1e999, \"\\ud800\"], \"name\": null\x7d").toOption = some {} := by
  decide +kernel

end FlowMigration.Manifest

namespace FlowMigration

open Json (Form TextOf)

theorem ManifestRecord.name?_of_hasErrors {r : ManifestRecord} (h : r.hasErrors = true) :
    r.name? = none := by
  rw [hasErrors, Option.isNone_iff_eq_none] at h
  rw [name?, h]
  rfl

theorem Registry.get?_build_ne_of_hasErrors {r : ManifestRecord} (h : r.hasErrors = true)
    (records : List ManifestRecord) (name : String) : (build records).get? name ≠ some r := by
  intro hget
  rw [get?_build] at hget
  have hname : r.name? = some name := by simpa using List.find?_some hget
  rw [ManifestRecord.name?_of_hasErrors h] at hname
  cases hname

/-- **What is read from a file.** A manifest is read if the file is UTF-8 and the text of an object
in which the name, if it stands there, is `null` or a string, and each map of dependencies, if it
stands there, is `null` or an object of strings, each of them once; or of an array of up to four
such values in the order of the members. The manifest says what they say. The record of any other
file is flagged, has no name and owns none. -/
theorem ManifestRecord.reads_or_flagged (disk : Disk) :
    (∀ file m, Manifest.ofFile disk file = .ok m ↔ ∃ content text f,
      disk.readBytes file = .ok content ∧ String.fromUTF8? content = some text ∧ TextOf text f ∧
        Manifest.IsManifest f m) ∧
      ∀ root names, (∃ m, Manifest.ofFile disk (Path.joinAll root names) = .ok m ∧
          (ofNames disk root names).manifest = .ok m) ∨
        ((ofNames disk root names).hasErrors = true ∧ (ofNames disk root names).name? = none ∧
          ∀ records name, (Registry.build records).get? name ≠ some (ofNames disk root names)) := by
  refine ⟨fun file m => ?_, fun root names => ?_⟩
  · rw [Manifest.ofFile_eq_ok]
    simp only [Manifest.parse_eq_ok, exists_and_left]
  · have hmanifest : (ofNames disk root names).manifest =
        (Manifest.ofFile disk (Path.joinAll root names)).mapError Failure.message := rfl
    cases hfile : Manifest.ofFile disk (Path.joinAll root names) with
    | ok m =>
      rw [hfile] at hmanifest
      exact .inl ⟨m, rfl, hmanifest⟩
    | error failure =>
      have herrors : (ofNames disk root names).hasErrors = true := by
        rw [hasErrors_iff, hmanifest, hfile]
        exact nofun
      exact .inr ⟨herrors, name?_of_hasErrors herrors,
        Registry.get?_build_ne_of_hasErrors herrors⟩

/-- An array with a name in it is read as a manifest of that name, though it `IsManifest` only as an
array. -/
theorem Manifest.not_object_of_array :
    ∃ m, parse "[\"n\"]" = .ok m ∧ m.name = some "n" ∧
      ∀ f, TextOf "[\"n\"]" f → ¬∃ members, f = .object members := by
  refine ⟨{ name := some "n" }, by rfl, rfl, ?_⟩
  rintro _ ⟨cs, rest, hb, hvalue, -⟩ ⟨members, rfl⟩
  cases hvalue with
  | object =>
    have hhead : Json.skipBlanks "[\"n\"]".toList = ['[', '"', 'n', '"', ']'] := by decide
    rw [Json.skipBlanks_eq_cons.2 ⟨hb, by decide⟩] at hhead
    exact absurd (List.cons.inj hhead).1 (by decide)

end FlowMigration
