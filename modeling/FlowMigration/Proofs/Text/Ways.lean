import FlowMigration.Text.Pattern

/-!
# Ways to match

A pattern comes from one point of a text to another in some ways, of which a search takes the first
one. Here the ways are told apart from the search.

* `Pattern.Comes`: there is a way from one point to another.
* `Pattern.exists_of_run`, `Pattern.run_of_comes`: a search finds a way, and it finds one if there
  is one that is accepted.
* `Pattern.exists_mem_of_comes`: where there is a way a match begins, or an earlier one goes on.
* `Pattern.Takes`: a pattern takes a text, wherever the text stands; `Pattern.comes_iff` says that
  its ways are the texts that it takes.
-/

namespace FlowMigration.Text

/-! ## Places -/

/-- The place `n` characters on. -/
def Place.skip (place : Place) (n : Nat) : Place :=
  ⟨(place.rest.take n).getLast?.or place.before, place.offset + n, place.rest.drop n⟩

@[simp] theorem Place.skip_zero (place : Place) : place.skip 0 = place := by
  simp [Place.skip]

theorem Place.skip_skip (place : Place) (a b : Nat) :
    (place.skip a).skip b = place.skip (a + b) := by
  simp only [Place.skip, List.drop_drop, List.take_add, List.getLast?_append, Option.or_assoc,
    Nat.add_assoc]

theorem Place.advance_eq {place : Place} {c : Char} {rest : List Char}
    (h : place.rest = c :: rest) : place.advance = place.skip 1 := by
  simp [Place.advance, Place.skip, h]

/-- The place between two parts of a text, `before` and `rest`. -/
def Place.behind (before rest : List Char) : Place := ⟨before.getLast?, before.length, rest⟩

theorem Place.skip_length (before rest : List Char) :
    (⟨none, 0, before ++ rest⟩ : Place).skip before.length = .behind before rest := by
  simp [Place.skip, Place.behind]

/-- The match `n` characters on. -/
def Match.skip (m : Match) (n : Nat) : Match := { m with place := m.place.skip n }

@[simp] theorem Match.skip_zero (m : Match) : m.skip 0 = m := by simp [Match.skip]

theorem Match.skip_skip (m : Match) (a b : Nat) : (m.skip a).skip b = m.skip (a + b) := by
  simp [Match.skip, Place.skip_skip]

theorem Match.rest_skip_append {m : Match} {xs rest : List Char} (h : m.place.rest = xs ++ rest) :
    (m.skip xs.length).place.rest = rest := by
  simp [Match.skip, Place.skip, h]

namespace Pattern

variable {α : Type} {p : Pattern} {m m' : Match}

/-! ## Ways -/

/-- The pattern can come from the one point to the other. -/
def Comes : Pattern → Match → Match → Prop
  | .one test, m, m' => ∃ c rest, m.place.rest = c :: rest ∧ test c = true ∧ m' = m.skip 1
  | .many _ test, m, m' =>
    ∃ run rest, m.place.rest = run ++ rest ∧ (∀ c ∈ run, test c = true) ∧ m' = m.skip run.length
  | .seq first second, m, m' => ∃ middle, first.Comes m middle ∧ second.Comes middle m'
  | .alt first second, m, m' => first.Comes m m' ∨ second.Comes m m'
  | .optional pattern, m, m' => pattern.Comes m m' ∨ m' = m
  | .capture pattern, m, m' =>
    ∃ done, pattern.Comes m done ∧ m' = { done with
      captured := some (m.place.offset, m.place.rest.take (done.place.offset - m.place.offset)) }
  | .lineStart, m, m' => (m.place.before = none ∨ m.place.before = some '\n') ∧ m' = m
  | .wordEdge, m, m' => (isWord m.place.before != isWord m.place.rest.head?) = true ∧ m' = m

theorem exists_of_runMany {greedy : Bool} {test : Char → Bool} {next : Place → Option α} {a : α} :
    ∀ {cs : List Char} (place : Place), place.rest = cs →
      runMany greedy test next place.before place.offset cs = some a →
      ∃ run rest, cs = run ++ rest ∧ (∀ c ∈ run, test c = true) ∧
        next (place.skip run.length) = some a := by
  intro cs
  induction cs with
  | nil =>
    intro place hrest h
    exact ⟨[], [], rfl, fun _ hc => absurd hc List.not_mem_nil, by
      rw [List.length_nil, Place.skip_zero, ← h, runMany, ← hrest]⟩
  | cons c cs ih =>
    intro place hrest h
    -- A run of no characters, and one that goes on behind the first.
    have here (hn : next ⟨place.before, place.offset, c :: cs⟩ = some a) :
        ∃ run rest, c :: cs = run ++ rest ∧ (∀ c ∈ run, test c = true) ∧
          next (place.skip run.length) = some a :=
      ⟨[], c :: cs, rfl, fun _ hc => absurd hc List.not_mem_nil, by
        rw [List.length_nil, Place.skip_zero, ← hn, ← hrest]⟩
    have on (hc : test c = true)
        (hr : runMany greedy test next (some c) (place.offset + 1) cs = some a) :
        ∃ run rest, c :: cs = run ++ rest ∧ (∀ c ∈ run, test c = true) ∧
          next (place.skip run.length) = some a := by
      have hskip : place.skip 1 = ⟨some c, place.offset + 1, cs⟩ := by simp [Place.skip, hrest]
      obtain ⟨run, rest, rfl, hrun, hn⟩ := ih (place.skip 1) (by rw [hskip]) (by
        rw [hskip]; exact hr)
      refine ⟨c :: run, rest, rfl, List.forall_mem_cons.2 ⟨hc, hrun⟩, ?_⟩
      rw [Place.skip_skip] at hn
      rw [List.length_cons, Nat.add_comm]
      exact hn
    rw [runMany] at h
    split at h
    · next hc =>
      split at h
      · split at h
        · next hr => exact on hc (hr.trans h)
        · exact here h
      · split at h
        · next hn => exact here (hn.trans h)
        · exact on hc h
    · exact here h

theorem runMany_of_skip {greedy : Bool} {test : Char → Bool} {next : Place → Option α} :
    ∀ {run rest : List Char} (place : Place), place.rest = run ++ rest →
      (∀ c ∈ run, test c = true) → (next (place.skip run.length)).isSome = true →
      (runMany greedy test next place.before place.offset (run ++ rest)).isSome = true := by
  intro run
  induction run with
  | nil =>
    intro rest place hrest _ hn
    rw [List.length_nil, Place.skip_zero] at hn
    rw [List.nil_append] at hrest ⊢
    have hplace : place = ⟨place.before, place.offset, rest⟩ := by rw [← hrest]
    cases rest with
    | nil => rw [runMany, ← hplace]; exact hn
    | cons c rest =>
      rw [runMany, ← hplace]
      split
      · split
        · split
          · rfl
          · exact hn
        · obtain ⟨a, ha⟩ := Option.isSome_iff_exists.1 hn
          rw [ha]
          rfl
      · exact hn
  | cons c run ih =>
    intro rest place hrest hrun hn
    obtain ⟨hc, hrun⟩ := List.forall_mem_cons.1 hrun
    have hskip : place.skip 1 = ⟨some c, place.offset + 1, run ++ rest⟩ := by
      simp [Place.skip, hrest]
    have hon :
        (runMany greedy test next (some c) (place.offset + 1) (run ++ rest)).isSome = true := by
      have := ih (place.skip 1) (by rw [hskip]) hrun (by
        rwa [Place.skip_skip, Nat.add_comm, ← List.length_cons (a := c)])
      rwa [hskip] at this
    rw [List.cons_append, runMany, if_pos hc]
    split
    · obtain ⟨a, ha⟩ := Option.isSome_iff_exists.1 hon
      rw [ha]
      rfl
    · split
      · rfl
      · exact hon

/-- **A search finds a way** that `next` accepts. -/
theorem exists_of_run {next : Match → Option α} {a : α} (h : p.run next m = some a) :
    ∃ m', p.Comes m m' ∧ next m' = some a := by
  induction p generalizing next m a with
  | one test =>
    rw [run] at h
    split at h
    · next c rest hrest =>
      split at h
      · next hc =>
        rw [Place.advance_eq hrest] at h
        exact ⟨m.skip 1, ⟨c, rest, hrest, hc, rfl⟩, h⟩
      · cases h
    · cases h
  | many greedy test =>
    obtain ⟨run, rest, hrest, hrun, hn⟩ := exists_of_runMany m.place rfl h
    exact ⟨_, ⟨run, rest, hrest, hrun, rfl⟩, hn⟩
  | seq first second ihf ihs =>
    obtain ⟨middle, hm, hn⟩ := ihf h
    obtain ⟨m', hm', ha⟩ := ihs hn
    exact ⟨m', ⟨middle, hm, hm'⟩, ha⟩
  | alt first second ihf ihs =>
    rw [run] at h
    split at h
    · next hf =>
      obtain ⟨m', hm', ha⟩ := ihf (hf.trans h)
      exact ⟨m', .inl hm', ha⟩
    · obtain ⟨m', hm', ha⟩ := ihs h
      exact ⟨m', .inr hm', ha⟩
  | optional pattern ih =>
    rw [run] at h
    split at h
    · next hp =>
      obtain ⟨m', hm', ha⟩ := ih (hp.trans h)
      exact ⟨m', .inl hm', ha⟩
    · exact ⟨m, .inr rfl, h⟩
  | capture pattern ih =>
    obtain ⟨done, hd, ha⟩ := ih h
    exact ⟨_, ⟨done, hd, rfl⟩, ha⟩
  | lineStart =>
    rw [run] at h
    split at h
    · next hm => exact ⟨m, ⟨hm, rfl⟩, h⟩
    · cases h
  | wordEdge =>
    rw [run] at h
    split at h
    · next hm => exact ⟨m, ⟨hm, rfl⟩, h⟩
    · cases h

/-- **A search finds a way** if there is one that `next` accepts. -/
theorem run_of_comes {next : Match → Option α} (h : p.Comes m m')
    (hn : (next m').isSome = true) : (p.run next m).isSome = true := by
  induction p generalizing next m m' with
  | one test =>
    obtain ⟨c, rest, hrest, hc, rfl⟩ := h
    simp only [run, hrest, hc, if_true, Place.advance_eq hrest]
    exact hn
  | many greedy test =>
    obtain ⟨run, rest, hrest, hrun, rfl⟩ := h
    rw [Pattern.run, hrest]
    exact runMany_of_skip m.place hrest hrun hn
  | seq first second ihf ihs =>
    obtain ⟨middle, hm, hm'⟩ := h
    exact ihf hm (ihs hm' hn)
  | alt first second ihf ihs =>
    rw [run]
    split
    · rfl
    · next hf =>
      obtain hm | hm := h
      · have := ihf hm hn
        rw [hf] at this
        cases this
      · exact ihs hm hn
  | optional pattern ih =>
    rw [run]
    split
    · rfl
    · next hp =>
      obtain hm | rfl := h
      · have := ih hm hn
        rw [hp] at this
        cases this
      · exact hn
  | capture pattern ih =>
    obtain ⟨done, hd, rfl⟩ := h
    exact ih hd hn
  | lineStart =>
    obtain ⟨hm, rfl⟩ := h
    rw [run, if_pos hm]
    exact hn
  | wordEdge =>
    obtain ⟨hm, rfl⟩ := h
    rw [run, if_pos hm]
    exact hn

/-! ## All matches -/

theorem comes_of_matchAt {place : Place} (h : p.matchAt place = some m) :
    p.Comes ⟨place, none⟩ m := by
  obtain ⟨m', hm', he⟩ := exists_of_run h
  simp only [Option.some.injEq] at he
  exact he ▸ hm'

theorem isSome_matchAt {place : Place} (h : p.Comes ⟨place, none⟩ m) :
    (p.matchAt place).isSome = true := run_of_comes h rfl

/-- **What is found**, `m`, is a match at some place. -/
theorem exists_matchAt_of_mem {cs : List Char} : ∀ {from_ : Nat} (place : Place), place.rest = cs →
    m ∈ findFrom p from_ place.before place.offset cs →
    ∃ n ≤ cs.length, p.matchAt (place.skip n) = some m := by
  induction cs with
  | nil =>
    intro from_ place hrest h
    rw [findFrom] at h
    split at h
    · exact absurd h List.not_mem_nil
    · refine ⟨0, Nat.le_refl 0, ?_⟩
      rw [Place.skip_zero]
      rw [← hrest] at h
      exact Option.mem_toList.1 h
  | cons c cs ih =>
    intro from_ place hrest h
    have on {from_ : Nat} (h : m ∈ findFrom p from_ (some c) (place.offset + 1) cs) :
        ∃ n ≤ (c :: cs).length, p.matchAt (place.skip n) = some m := by
      have hskip : place.skip 1 = ⟨some c, place.offset + 1, cs⟩ := by simp [Place.skip, hrest]
      obtain ⟨n, hn, hm⟩ := ih (place.skip 1) (by rw [hskip]) (by rw [hskip]; exact h)
      exact ⟨n + 1, Nat.succ_le_succ hn, by rwa [Place.skip_skip, Nat.add_comm] at hm⟩
    rw [findFrom] at h
    split at h
    · exact on h
    · split at h
      · next hfound =>
        obtain rfl | hm := List.mem_cons.1 h
        · refine ⟨0, Nat.zero_le _, ?_⟩
          rw [Place.skip_zero, ← hfound, ← hrest]
        · exact on hm
      · exact on h

/-- One of the matches begins at most `n` characters on, and if it begins earlier it goes on from
there. -/
def Meets (p : Pattern) (place : Place) (n : Nat) (found : List Match) : Prop :=
  ∃ i ≤ n, ∃ m ∈ found,
    p.matchAt (place.skip i) = some m ∧ (i < n → place.offset + n < m.place.offset)

namespace Meets

variable {place : Place} {n : Nat} {found : List Match}

theorem here (hm : p.matchAt place = some m) (hmem : m ∈ found)
    (hover : 0 < n → place.offset + n < m.place.offset) : Meets p place n found :=
  ⟨0, Nat.zero_le n, m, hmem, by rwa [Place.skip_zero], hover⟩

theorem cons (h : Meets p place n found) (m : Match) : Meets p place n (m :: found) := by
  obtain ⟨i, hi, m', hmem, hm'⟩ := h
  exact ⟨i, hi, m', List.mem_cons_of_mem m hmem, hm'⟩

theorem of_skip (h : Meets p (place.skip 1) n found) (hne : place.rest ≠ []) :
    Meets p place (n + 1) found := by
  obtain ⟨i, hi, m, hmem, hmatch, hover⟩ := h
  have hoffset : (place.skip 1).offset = place.offset + 1 := by
    obtain ⟨c, cs, hrest⟩ := List.exists_cons_of_ne_nil hne
    simp [Place.skip, hrest]
  refine ⟨i + 1, Nat.succ_le_succ hi, m, hmem, ?_, fun h => ?_⟩
  · rwa [Place.skip_skip, Nat.add_comm] at hmatch
  · have := hover (Nat.lt_of_succ_lt_succ h)
    rw [hoffset] at this
    omega

end Meets

/-- **Where the pattern `p` can match**, a match begins, or one that began in front of it goes
on. -/
theorem meets_findFrom {cs : List Char} : ∀ (from_ n : Nat) (place : Place), place.rest = cs →
    n ≤ cs.length → from_ ≤ place.offset + n → (p.matchAt (place.skip n)).isSome = true →
    Meets p place n (findFrom p from_ place.before place.offset cs) := by
  have now {place : Place} (hm : (p.matchAt (place.skip 0)).isSome = true) :
      ∃ m, p.matchAt place = some m := by
    rw [Place.skip_zero] at hm
    exact Option.isSome_iff_exists.1 hm
  induction cs with
  | nil =>
    intro from_ n place hrest hn hfrom hm
    obtain rfl : n = 0 := Nat.le_zero.1 hn
    obtain ⟨m, hm⟩ := now hm
    rw [Nat.add_zero] at hfrom
    rw [findFrom, if_neg (Nat.not_lt.2 hfrom), ← hrest]
    exact .here hm (Option.mem_toList.2 hm) fun h => absurd h (Nat.lt_irrefl 0)
  | cons c cs ih =>
    intro from_ n place hrest hn hfrom hm
    have hskip : place.skip 1 = ⟨some c, place.offset + 1, cs⟩ := by simp [Place.skip, hrest]
    have hplace : (⟨place.before, place.offset, c :: cs⟩ : Place) = place := by rw [← hrest]
    have on {k from_ : Nat} (hk : n = k + 1) (hfrom : from_ ≤ place.offset + n) :
        Meets p place n (findFrom p from_ (some c) (place.offset + 1) cs) := by
      subst hk
      have hmeets := ih from_ k (place.skip 1) (by rw [hskip]) (Nat.le_of_succ_le_succ hn)
        (by rw [hskip]; simp only; omega) (by rwa [Place.skip_skip, Nat.add_comm])
      rw [hskip] at hmeets
      exact Meets.of_skip (hskip ▸ hmeets) (hrest ▸ List.cons_ne_nil c cs)
    rw [findFrom]
    split
    · next hlt =>
      obtain ⟨k, rfl⟩ : ∃ k, n = k + 1 := ⟨n - 1, by omega⟩
      exact on rfl hfrom
    · rw [hplace]
      cases n with
      | zero =>
        obtain ⟨m, hm⟩ := now hm
        rw [hm]
        exact .here hm List.mem_cons_self fun h => absurd h (Nat.lt_irrefl 0)
      | succ k =>
        split
        · next m hfound =>
          by_cases hover : m.place.offset ≤ place.offset + (k + 1)
          · exact (on rfl hover).cons m
          · exact .here hfound List.mem_cons_self fun _ => Nat.lt_of_not_le hover
        · exact on rfl hfrom

theorem exists_comes_of_mem {text : List Char} (h : m ∈ p.findAll text) :
    ∃ before rest, text = before ++ rest ∧ p.Comes ⟨.behind before rest, none⟩ m := by
  obtain ⟨n, hn, hm⟩ := exists_matchAt_of_mem ⟨none, 0, text⟩ rfl h
  have hskip := Place.skip_length (text.take n) (text.drop n)
  rw [List.take_append_drop, List.length_take, Nat.min_eq_left hn] at hskip
  exact ⟨text.take n, text.drop n, (List.take_append_drop n text).symm,
    hskip ▸ comes_of_matchAt hm⟩

/-- **Where there is a way** to `m`, a match is found, or one that began in front of it goes on. -/
theorem exists_mem_of_comes {before rest : List Char}
    (h : p.Comes ⟨.behind before rest, none⟩ m) :
    ∃ front gap, before = front ++ gap ∧ ∃ m' ∈ p.findAll (before ++ rest),
      p.Comes ⟨.behind front (gap ++ rest), none⟩ m' ∧
        (gap ≠ [] → before.length < m'.place.offset) := by
  obtain ⟨i, hi, m', hmem, hmatch, hlt⟩ := meets_findFrom (p := p) 0 before.length
    ⟨none, 0, before ++ rest⟩ rfl (by rw [List.length_append]; exact Nat.le_add_right _ _)
    (Nat.zero_le _)
    (by rw [Place.skip_length]; exact isSome_matchAt h)
  refine ⟨before.take i, before.drop i, (List.take_append_drop i before).symm, m', hmem, ?_, ?_⟩
  · have hskip := Place.skip_length (before.take i) (before.drop i ++ rest)
    rw [← List.append_assoc, List.take_append_drop, List.length_take, Nat.min_eq_left hi] at hskip
    exact hskip ▸ comes_of_matchAt hmatch
  · intro hgap
    have hlt := hlt (Nat.lt_of_not_le fun hle => hgap (List.drop_eq_nil_of_le hle))
    simpa using hlt

/-! ## Sequences -/

theorem comes_sequence_nil : (sequence []).Comes m m' ↔ m' = m := by
  constructor
  · rintro ⟨run, rest, -, hrun, rfl⟩
    obtain rfl : run = [] := List.eq_nil_iff_forall_not_mem.2 fun c hc =>
      Bool.false_ne_true (hrun c hc)
    exact Match.skip_zero m
  · rintro rfl
    exact ⟨[], _, rfl, fun _ hc => absurd hc List.not_mem_nil, (Match.skip_zero _).symm⟩

theorem comes_sequence_cons {ps : List Pattern} :
    (sequence (p :: ps)).Comes m m' ↔
      ∃ middle, p.Comes m middle ∧ (sequence ps).Comes middle m' := by
  cases ps with
  | cons q more => exact Iff.rfl
  | nil =>
    simp only [comes_sequence_nil]
    exact ⟨fun h => ⟨m', h, rfl⟩, fun ⟨_, h, he⟩ => he ▸ h⟩

theorem comes_sequence_append {ps qs : List Pattern} :
    (sequence (ps ++ qs)).Comes m m' ↔
      ∃ middle, (sequence ps).Comes m middle ∧ (sequence qs).Comes middle m' := by
  induction ps generalizing m with
  | nil =>
    simp only [comes_sequence_nil]
    exact ⟨fun h => ⟨m, rfl, h⟩, fun ⟨_, he, h⟩ => he ▸ h⟩
  | cons p ps ih =>
    simp only [List.cons_append, comes_sequence_cons, ih]
    constructor
    · rintro ⟨a, ha, b, hb, hm⟩
      exact ⟨b, ⟨a, ha, hb⟩, hm⟩
    · rintro ⟨b, ⟨a, ha, hb⟩, hm⟩
      exact ⟨a, ha, b, hb, hm⟩

/-! ## Texts that a pattern takes -/

/-- The pattern can come over a text, wherever the text stands. -/
def Takes : Pattern → List Char → Prop
  | .one test, cs => ∃ c, cs = [c] ∧ test c = true
  | .many _ test, cs => ∀ c ∈ cs, test c = true
  | .seq first second, cs => ∃ xs ys, cs = xs ++ ys ∧ first.Takes xs ∧ second.Takes ys
  | .alt first second, cs => first.Takes cs ∨ second.Takes cs
  | .optional pattern, cs => pattern.Takes cs ∨ cs = []
  | .capture pattern, cs => pattern.Takes cs
  | .lineStart, cs | .wordEdge, cs => cs = []

/-- The pattern captures nothing and does not ask where it stands. -/
def IsPlain : Pattern → Bool
  | .one _ | .many _ _ => true
  | .seq first second | .alt first second => first.IsPlain && second.IsPlain
  | .optional pattern => pattern.IsPlain
  | .capture _ | .lineStart | .wordEdge => false

/-- **The ways of a plain pattern** (`IsPlain`) are the texts that it takes. -/
theorem comes_iff (h : p.IsPlain = true) :
    p.Comes m m' ↔ ∃ xs rest, p.Takes xs ∧ m.place.rest = xs ++ rest ∧ m' = m.skip xs.length := by
  induction p generalizing m m' with
  | one test =>
    constructor
    · rintro ⟨c, rest, hrest, hc, rfl⟩
      exact ⟨[c], rest, ⟨c, rfl, hc⟩, hrest, rfl⟩
    · rintro ⟨_, rest, ⟨c, rfl, hc⟩, hrest, rfl⟩
      exact ⟨c, rest, hrest, hc, rfl⟩
  | many greedy test =>
    constructor
    · rintro ⟨run, rest, hrest, hrun, rfl⟩
      exact ⟨run, rest, hrun, hrest, rfl⟩
    · rintro ⟨run, rest, hrun, hrest, rfl⟩
      exact ⟨run, rest, hrest, hrun, rfl⟩
  | seq first second ihf ihs =>
    obtain ⟨hf, hs⟩ := Bool.and_eq_true_iff.1 h
    simp only [Comes, ihf hf, ihs hs]
    constructor
    · rintro ⟨_, ⟨xs, rest, hxs, hrest, rfl⟩, ys, rest', hys, hrest', rfl⟩
      rw [Match.rest_skip_append hrest] at hrest'
      refine ⟨xs ++ ys, rest', ⟨xs, ys, rfl, hxs, hys⟩, ?_, ?_⟩
      · rw [hrest, hrest', List.append_assoc]
      · rw [Match.skip_skip, List.length_append]
    · rintro ⟨_, rest, ⟨xs, ys, rfl, hxs, hys⟩, hrest, rfl⟩
      rw [List.append_assoc] at hrest
      exact ⟨_, ⟨xs, _, hxs, hrest, rfl⟩, ys, rest, hys, Match.rest_skip_append hrest,
        by rw [Match.skip_skip, List.length_append]⟩
  | alt first second ihf ihs =>
    obtain ⟨hf, hs⟩ := Bool.and_eq_true_iff.1 h
    simp only [Comes, Takes, ihf hf, ihs hs, or_and_right, exists_or]
  | optional pattern ih =>
    simp only [Comes, Takes, ih h, or_and_right, exists_or]
    refine or_congr_right ⟨?_, ?_⟩
    · rintro rfl
      exact ⟨[], _, rfl, rfl, (Match.skip_zero _).symm⟩
    · rintro ⟨_, _, rfl, -, rfl⟩
      exact Match.skip_zero m
  | capture _ => cases h
  | lineStart => cases h
  | wordEdge => cases h

theorem comes_capture (h : p.IsPlain = true) :
    (capture p).Comes m m' ↔ ∃ xs rest, p.Takes xs ∧ m.place.rest = xs ++ rest ∧
      m' = ⟨m.place.skip xs.length, some (m.place.offset, xs)⟩ := by
  have htake {xs rest : List Char} (hrest : m.place.rest = xs ++ rest) :
      m.place.rest.take ((m.skip xs.length).place.offset - m.place.offset) = xs := by
    simp [Match.skip, Place.skip, hrest]
  simp only [Comes, comes_iff h]
  constructor
  · rintro ⟨_, ⟨xs, rest, hxs, hrest, rfl⟩, rfl⟩
    exact ⟨xs, rest, hxs, hrest, by rw [htake hrest]; rfl⟩
  · rintro ⟨xs, rest, hxs, hrest, rfl⟩
    exact ⟨_, ⟨xs, rest, hxs, hrest, rfl⟩, by rw [htake hrest]; rfl⟩

theorem takes_sequence_nil {cs : List Char} : (sequence []).Takes cs ↔ cs = [] :=
  ⟨fun h => List.eq_nil_iff_forall_not_mem.2 fun c hc => Bool.false_ne_true (h c hc),
    fun h => h ▸ fun _ hc => absurd hc List.not_mem_nil⟩

theorem takes_sequence_cons {ps : List Pattern} {cs : List Char} :
    (sequence (p :: ps)).Takes cs ↔
      ∃ xs ys, cs = xs ++ ys ∧ p.Takes xs ∧ (sequence ps).Takes ys := by
  cases ps with
  | cons q more => exact Iff.rfl
  | nil =>
    simp only [takes_sequence_nil]
    exact ⟨fun h => ⟨cs, [], (List.append_nil cs).symm, h, rfl⟩,
      fun ⟨xs, _, hcs, h, he⟩ => by rwa [hcs, he, List.append_nil]⟩

theorem takes_word {text : String} {cs : List Char} : (word text).Takes cs ↔ cs = text.toList := by
  have hlist (letters : List Char) : ∀ cs : List Char,
      (sequence (letters.map fun c => .one (· == c))).Takes cs ↔ cs = letters := by
    induction letters with
    | nil => exact fun cs => takes_sequence_nil
    | cons c letters ih =>
      intro cs
      simp only [List.map_cons, takes_sequence_cons, ih, Takes]
      constructor
      · rintro ⟨_, _, rfl, ⟨d, rfl, hd⟩, rfl⟩
        rw [beq_iff_eq.1 hd, List.singleton_append]
      · rintro rfl
        exact ⟨[c], letters, rfl, ⟨c, rfl, beq_self_eq_true c⟩, rfl⟩
  exact hlist text.toList cs

theorem takes_some1 {greedy : Bool} {test : Char → Bool} {cs : List Char} :
    (some1 greedy test).Takes cs ↔ cs ≠ [] ∧ ∀ c ∈ cs, test c = true := by
  constructor
  · rintro ⟨_, ys, rfl, ⟨c, rfl, hc⟩, hys⟩
    exact ⟨List.cons_ne_nil c ys, List.forall_mem_cons.2 ⟨hc, hys⟩⟩
  · rintro ⟨hne, hall⟩
    obtain ⟨c, ys, rfl⟩ := List.exists_cons_of_ne_nil hne
    obtain ⟨hc, hys⟩ := List.forall_mem_cons.1 hall
    exact ⟨[c], ys, rfl, ⟨c, rfl, hc⟩, hys⟩

theorem takes_blanks {cs : List Char} : blanks.Takes cs ↔ ∀ c ∈ cs, isBlank c = true := Iff.rfl

theorem takes_blanks1 {cs : List Char} :
    blanks1.Takes cs ↔ cs ≠ [] ∧ ∀ c ∈ cs, isBlank c = true := takes_some1

/-! ## Plain patterns -/

@[simp] theorem isPlain_sequence (ps : List Pattern) : (sequence ps).IsPlain = ps.all IsPlain := by
  induction ps with
  | nil => rfl
  | cons p ps ih =>
    cases ps with
    | nil => simp [sequence]
    | cons q more =>
      change (p.IsPlain && (sequence (q :: more)).IsPlain) = _
      rw [ih]
      rfl

@[simp] theorem isPlain_word (text : String) : (word text).IsPlain = true := by
  rw [word, isPlain_sequence, List.all_map]
  exact List.all_eq_true.2 fun _ _ => rfl

@[simp] theorem isPlain_some1 (greedy : Bool) (test : Char → Bool) :
    (some1 greedy test).IsPlain = true := rfl

@[simp] theorem isPlain_blanks : blanks.IsPlain = true := rfl

@[simp] theorem isPlain_blanks1 : blanks1.IsPlain = true := rfl

/-! ## Characters that a pattern does not take -/

/-- No test of the pattern lets one of the `bad` characters pass. -/
def avoids (bad : List Char) : Pattern → Bool
  | .one test | .many _ test => bad.all fun c => !test c
  | .seq first second | .alt first second => first.avoids bad && second.avoids bad
  | .optional pattern | .capture pattern => pattern.avoids bad
  | .lineStart | .wordEdge => true

theorem Takes.avoids {bad cs : List Char} (h : p.Takes cs) (hp : p.avoids bad = true) :
    ∀ c ∈ cs, c ∉ bad := by
  have fails {test : Char → Bool} (hbad : (bad.all fun c => !test c) = true) {c : Char}
      (hc : test c = true) : c ∉ bad := fun hb => by
    simpa [hc] using List.all_eq_true.1 hbad c hb
  induction p generalizing cs with
  | one test =>
    obtain ⟨c, rfl, hc⟩ := h
    exact List.forall_mem_singleton.2 (fails hp hc)
  | many greedy test => exact fun c hc => fails hp (h c hc)
  | seq first second ihf ihs =>
    obtain ⟨xs, ys, rfl, hxs, hys⟩ := h
    obtain ⟨hf, hs⟩ := Bool.and_eq_true_iff.1 hp
    exact List.forall_mem_append.2 ⟨ihf hxs hf, ihs hys hs⟩
  | alt first second ihf ihs =>
    obtain ⟨hf, hs⟩ := Bool.and_eq_true_iff.1 hp
    exact h.elim (fun hxs => ihf hxs hf) fun hys => ihs hys hs
  | optional pattern ih =>
    obtain hs | rfl := h
    · exact ih hs hp
    · exact fun _ hc => absurd hc List.not_mem_nil
  | capture pattern ih => exact ih h hp
  | lineStart => exact h ▸ fun _ hc => absurd hc List.not_mem_nil
  | wordEdge => exact h ▸ fun _ hc => absurd hc List.not_mem_nil

end Pattern

end FlowMigration.Text
