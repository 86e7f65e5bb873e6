import FlowMigration.Proofs.Walk.Places
import FlowMigration.Proofs.Walk.Reach

/-!
# Walks that leave things out

A walk that refuses some entries, against the walk of the same directory that refuses none.

* `mem_entries_iff_full`: it comes to those entries of the full walk on whose way it refuses
  nothing.
* `entries_full`, `isOk_entries_full`: it fails where the full walk fails.
-/

namespace FlowMigration.Walk

/-- Refuses nothing, as `keep` of a full walk. -/
def everything : List String → Node → Bool := fun _ _ => true

variable {disk : Disk} {keep : List String → Node → Bool} {e : WalkEntry}

/-- Of the entries in `full`, those that `names` pass are kept. -/
def KeptOn (keep : List String → Node → Bool) (full : List WalkEntry) (names : List String) : Prop :=
  ∀ x ∈ full, x.names <+: names → keep x.names x.node = true

theorem KeptOn.append_iff {first second : List WalkEntry} {names : List String} :
    KeptOn keep (first ++ second) names ↔ KeptOn keep first names ∧ KeptOn keep second names :=
  List.forall_mem_append

theorem KeptOn.of_apart {full : List WalkEntry} {names : List String}
    (h : ∀ x ∈ full, ¬x.names <+: names) : KeptOn keep full names :=
  fun x hx hpre => absurd hpre (h x hx)

theorem not_prefix_of_lt {names more more' : List String} {a b : String} (h : a < b ∨ b < a) :
    ¬(names ++ a :: more) <+: (names ++ b :: more') := by
  intro hpre
  obtain ⟨rfl, -⟩ := List.cons_prefix_cons.1 ((List.prefix_append_right_inj names).1 hpre)
  exact h.elim (String.lt_irrefl a) (String.lt_irrefl a)

theorem mem_belowEntry_leaf_full {layers : List IgnoreLayer} {place names : List String}
    {name : String} {node : Node} (h : node.isDir = false) :
    e ∈ belowEntry disk keep layers place names (name, node) ↔
      e ∈ belowEntry disk everything layers place names (name, node) ∧
        KeptOn keep (belowEntry disk everything layers place names (name, node)) e.names := by
  rw [belowEntry_leaf h, belowEntry_leaf h]
  by_cases hout : IgnoreLayer.decide layers name false = .ignored
  · simp [hout]
  · cases hkeep : keep (names ++ [name]) node
    · simp only [hout, everything, or_true, if_true, false_or, Bool.true_eq_false, if_false,
        List.not_mem_nil, List.mem_singleton, false_iff, not_and]
      rintro rfl hk
      have hself := hk _ List.mem_cons_self List.prefix_rfl
      rw [hkeep] at hself
      cases hself
    · simp only [hout, everything, or_false, Bool.true_eq_false, if_false, List.mem_singleton]
      refine (and_iff_left_of_imp ?_).symm
      rintro rfl x hx -
      obtain rfl := List.mem_singleton.1 hx
      exact hkeep

mutual

/-- **A walk `below` a directory** comes to what the full walk comes to and `keep` refuses nothing
on the way to. -/
theorem mem_below_full {layers : List IgnoreLayer} {place names : List String} :
    (entries : List (String × Node)) → (∀ entry ∈ entries, entry.2.WellFormed) →
      (entries.Pairwise fun a b => a.1 < b.1) →
      (e ∈ below disk keep layers place names entries ↔
        e ∈ below disk everything layers place names entries ∧
          KeptOn keep (below disk everything layers place names entries) e.names)
  | [], _, _ => by simp [below]
  | entry :: rest, hw, hasc => by
    have hrest : ∀ x ∈ rest, x.2.WellFormed := fun x hx => hw x (List.mem_cons_of_mem _ hx)
    obtain ⟨hfirst, hasc⟩ := List.pairwise_cons.1 hasc
    -- what the first entry leads to lies apart from what the others lead to
    have hapart : ∀ x ∈ belowEntry disk everything layers place names entry,
        ∀ y ∈ below disk everything layers place names rest,
          ¬x.names <+: y.names ∧ ¬y.names <+: x.names := by
      intro x hx y hy
      obtain ⟨more, hxn, -⟩ := mem_belowEntry entry (hw entry List.mem_cons_self) hx
      obtain ⟨entry', hmem, more', hyn, -⟩ := mem_below rest hrest hy
      rw [hxn, hyn]
      exact ⟨not_prefix_of_lt (.inl (hfirst entry' hmem)),
        not_prefix_of_lt (.inr (hfirst entry' hmem))⟩
    rw [below, below, List.mem_append, List.mem_append, KeptOn.append_iff,
      mem_belowEntry_full entry (hw entry List.mem_cons_self), mem_below_full rest hrest hasc]
    constructor
    · rintro (⟨he, hk⟩ | ⟨he, hk⟩)
      · exact ⟨.inl he, hk, .of_apart fun y hy => (hapart e he y hy).2⟩
      · exact ⟨.inr he, .of_apart fun x hx => (hapart x hx e he).1, hk⟩
    · rintro ⟨he | he, hfirst, hsecond⟩
      · exact .inl ⟨he, hfirst⟩
      · exact .inr ⟨he, hsecond⟩

theorem mem_belowEntry_full {layers : List IgnoreLayer} {place names : List String} :
    (entry : String × Node) → entry.2.WellFormed →
      (e ∈ belowEntry disk keep layers place names entry ↔
        e ∈ belowEntry disk everything layers place names entry ∧
          KeptOn keep (belowEntry disk everything layers place names entry) e.names)
  | (name, .dir inside), hw => by
    rw [belowEntry, belowEntry]
    by_cases hout : IgnoreLayer.decide layers name true = .ignored
    · simp [hout]
    · -- what stands inside has more names than the directory
      have hinside : ∀ x ∈ below disk everything
          ((IgnoreLayer.ofDirectory disk (Disk.pathOf (place ++ [name])) []).1 ::
            layers.map (·.enter name)) (place ++ [name]) (names ++ [name]) inside,
          (names ++ [name]) <+: x.names ∧ ¬x.names <+: (names ++ [name]) := by
        intro x hx
        obtain ⟨entry, -, more, hxn, -⟩ := mem_below inside hw.inside hx
        rw [hxn]
        exact ⟨List.prefix_append _ _, fun hpre => by simpa using hpre.length_le⟩
      simp only [hout, everything, false_or, Bool.true_eq_false, if_false]
      cases hkeep : keep (names ++ [name]) (.dir inside)
      · simp only [if_true, List.not_mem_nil, false_iff, not_and]
        intro he hk
        have hself : keep (names ++ [name]) (.dir inside) = true := by
          refine hk ⟨names ++ [name], .dir inside⟩ List.mem_cons_self ?_
          rcases List.mem_cons.1 he with rfl | he
          · exact List.prefix_rfl
          · exact (hinside e he).1
        rw [hkeep] at hself
        cases hself
      · have hfull := @mem_below_full
          ((IgnoreLayer.ofDirectory disk (Disk.pathOf (place ++ [name])) []).1 ::
            layers.map (·.enter name)) (place ++ [name]) (names ++ [name]) inside hw.inside
            hw.own.ascending
        simp only [Bool.true_eq_false, if_false, List.mem_cons]
        constructor
        · rintro (rfl | he)
          · refine ⟨.inl rfl, List.forall_mem_cons.2 ⟨fun _ => hkeep, fun x hx hpre => ?_⟩⟩
            exact absurd hpre (hinside x hx).2
          · obtain ⟨he, hk⟩ := hfull.1 he
            exact ⟨.inr he, List.forall_mem_cons.2 ⟨fun _ => hkeep, hk⟩⟩
        · rintro ⟨rfl | he, hk⟩
          · exact .inl rfl
          · exact .inr (hfull.2 ⟨he, (List.forall_mem_cons.1 hk).2⟩)
  | (_, .file _), _ => mem_belowEntry_leaf_full rfl
  | (_, .link _), _ => mem_belowEntry_leaf_full rfl

end

/-! ## Walks from a path -/

/-- **What `keep` refuses** does not decide whether a walk fails, nor with what it begins. -/
theorem entries_full (disk : Disk) (keep : List String → Node → Bool) (start : String) :
    (∃ error, entries disk keep start = .error error ∧
      entries disk everything start = .error error) ∨
    (∃ first, entries disk keep start = .ok [first] ∧ first.names = [] ∧
      entries disk everything start = .ok [first]) ∨
    ∃ first layers place inside, first.names = [] ∧ disk.root.get? place = some (.dir inside) ∧
      entries disk keep start = .ok (first :: below disk keep layers place [] inside) ∧
      entries disk everything start =
        .ok (first :: below disk everything layers place [] inside) := by
  unfold entries
  cases disk.entry start with
  | error error => exact .inl ⟨_, rfl, rfl⟩
  | ok node =>
    cases disk.locate start with
    | error error => exact .inl ⟨_, rfl, rfl⟩
    | ok place =>
      dsimp only
      split
      · next inside hinside =>
        split
        · exact .inr (.inr ⟨_, _, place, inside, rfl, hinside, rfl, rfl⟩)
        · exact .inl ⟨_, rfl, rfl⟩
      · exact .inr (.inl ⟨_, rfl, rfl, rfl⟩)

theorem isOk_entries_full (disk : Disk) (keep : List String → Node → Bool) (start : String) :
    (entries disk keep start).isOk = (entries disk everything start).isOk := by
  obtain ⟨error, hk, hf⟩ | ⟨first, hk, -, hf⟩ | ⟨first, _, _, _, -, -, hk, hf⟩ :=
    entries_full disk keep start
  all_goals simp only [hk, hf, Except.isOk, Except.toBool]

/-- **A walk from `start`** comes to those entries of the `full` walk on whose way `keep` refuses
nothing, where it starts apart. -/
theorem mem_entries_iff_full {start : String} {found full : List WalkEntry}
    (hw : disk.root.WellFormed) (hfound : entries disk keep start = .ok found)
    (hfull : entries disk everything start = .ok full) :
    e ∈ found ↔ e ∈ full ∧ ∀ x ∈ full, x.names ≠ [] → x.names <+: e.names →
      keep x.names x.node = true := by
  obtain ⟨error, hk, -⟩ | ⟨first, hk, hnil, hf⟩ |
    ⟨first, layers, place, inside, hnil, hdir, hk, hf⟩ := entries_full disk keep start
  · rw [hk] at hfound
    cases hfound
  · rw [hk] at hfound
    rw [hf] at hfull
    obtain rfl := Except.ok.inj hfound
    obtain rfl := Except.ok.inj hfull
    refine (and_iff_left fun x hx hne => ?_).symm
    obtain rfl := List.mem_singleton.1 hx
    exact absurd hnil hne
  · rw [hk] at hfound
    rw [hf] at hfull
    obtain rfl := Except.ok.inj hfound
    obtain rfl := Except.ok.inj hfull
    have hwhole : (Node.dir inside).WellFormed := hw.get? hdir
    -- only the start has no names
    have hnames : ∀ x ∈ below disk everything layers place [] inside, x.names ≠ [] := by
      intro x hx
      obtain ⟨entry, -, more, hxn, -⟩ := mem_below inside hwhole.inside hx
      simp [hxn]
    have hiff : e ∈ below disk keep layers place [] inside ↔ _ :=
      mem_below_full inside hwhole.inside hwhole.own.ascending
    rw [List.mem_cons, List.mem_cons, hiff]
    simp only [List.mem_cons]
    constructor
    · rintro (rfl | ⟨he, hkept⟩)
      · refine ⟨.inl rfl, fun x hx hne hpre => ?_⟩
        rw [hnil] at hpre
        exact absurd (List.prefix_nil.1 hpre) hne
      · refine ⟨.inr he, fun x hx hne hpre => ?_⟩
        obtain rfl | hx := hx
        · exact absurd hnil hne
        · exact hkept x hx hpre
    · rintro ⟨rfl | he, hkept⟩
      · exact .inl rfl
      · exact .inr ⟨he, fun x hx hpre => hkept x (.inr hx) (hnames x hx) hpre⟩

end FlowMigration.Walk
