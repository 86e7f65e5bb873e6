import FlowMigration.Topology.Folder
import Mathlib.Data.List.Induction
import Mathlib.Data.List.Nodup

/-!
# Folder arenas are trees

`FolderArena.Coherent`: the two child structures of every folder agree, children have greater
numbers than their parents and distinct names, and every folder but the root has one parent. The
invariant holds of the empty arena and is kept by every insertion (`coherent_insert`,
`coherent_inserted`, `coherent_ofPaths`).

* `find?`: the folder that names lead to; two paths from the root never meet
  (`Coherent.find?_inj`).
* `markAt?_insert`: an insertion changes the mark at its own path and no other.
-/

namespace FlowMigration.FolderArena

/-! ## Looking folders up -/

/-- The folder `name` inside a folder. -/
def inside? (arena : FolderArena) (id : Nat) (name : String) : Option Nat :=
  (arena.folder id).index.lookup name

/-- The folder that names lead to from the folder `id`. -/
def find? (arena : FolderArena) : Nat → List String → Option Nat
  | id, [] => some id
  | id, name :: rest => (arena.inside? id name).bind fun next => arena.find? next rest

/-- The mark of the folder to which `segments` lead from the root. -/
def markAt? (arena : FolderArena) (segments : List String) : Option Nat :=
  (arena.find? root segments).bind fun id => (arena.folder id).mark

/-- The invariant (module doc). -/
structure Coherent (arena : FolderArena) : Prop where
  pos : root < arena.size
  index : ∀ p, (arena.folder p).index =
    (arena.folder p).children.map fun c => ((arena.folder c).name, c)
  names : ∀ p, ((arena.folder p).children.map fun c => (arena.folder c).name).Nodup
  above : ∀ p, ∀ c ∈ (arena.folder p).children, p < c ∧ c < arena.size
  parent : ∀ p q c, c ∈ (arena.folder p).children → c ∈ (arena.folder q).children → p = q
  reached : ∀ c, 0 < c → c < arena.size → ∃ p, c ∈ (arena.folder p).children

variable {arena : FolderArena}

theorem find?_append (id : Nat) (front rest : List String) :
    arena.find? id (front ++ rest) =
      (arena.find? id front).bind fun next => arena.find? next rest := by
  induction front generalizing id with
  | nil => rfl
  | cons name front ih =>
    simp only [List.cons_append, find?, Option.bind_assoc]
    congr 1
    funext next
    exact ih next

theorem folder_of_size_le {id : Nat} (h : arena.size ≤ id) : arena.folder id = {} := by
  simp [folder, Array.getD_eq_getD_getElem?, Array.getElem?_eq_none h]

theorem lookup_map_eq_some {ids : List Nat} {f : Nat → String} (hnd : (ids.map f).Nodup)
    {name : String} {c : Nat} :
    (ids.map fun c => (f c, c)).lookup name = some c ↔ c ∈ ids ∧ f c = name := by
  induction ids with
  | nil => simp
  | cons d ids ih =>
    simp only [List.map_cons, List.nodup_cons, List.mem_map, not_exists, not_and] at hnd
    simp only [List.map_cons, List.lookup_cons, List.mem_cons]
    by_cases hd : name = f d
    · subst hd
      simp only [beq_self_eq_true, Option.some.injEq]
      constructor
      · rintro rfl
        exact ⟨.inl rfl, rfl⟩
      · rintro ⟨rfl | hc, he⟩
        · rfl
        · exact absurd he (hnd.1 c hc)
    · have hne : (name == f d) = false := by simpa using hd
      rw [hne]
      refine (ih hnd.2).trans ⟨?_, ?_⟩
      · rintro ⟨hc, he⟩
        exact ⟨.inr hc, he⟩
      · rintro ⟨rfl | hc, he⟩
        · exact absurd he.symm hd
        · exact ⟨hc, he⟩

namespace Coherent

theorem inside?_eq_some (h : arena.Coherent) {p c : Nat} {name : String} :
    arena.inside? p name = some c ↔
      c ∈ (arena.folder p).children ∧ (arena.folder c).name = name := by
  unfold inside?
  rw [h.index p]
  exact lookup_map_eq_some (h.names p)

theorem find?_lt (h : arena.Coherent) {id j : Nat} {segments : List String} (hid : id < arena.size)
    (hf : arena.find? id segments = some j) : j < arena.size := by
  induction segments generalizing id with
  | nil => cases hf; exact hid
  | cons name rest ih =>
    obtain ⟨c, hc, hf⟩ := Option.bind_eq_some_iff.1 hf
    exact ih (h.above _ _ (h.inside?_eq_some.1 hc).1).2 hf

theorem le_find? (h : arena.Coherent) {id j : Nat} {segments : List String}
    (hf : arena.find? id segments = some j) : id ≤ j := by
  induction segments generalizing id with
  | nil => cases hf; exact Nat.le_refl _
  | cons name rest ih =>
    obtain ⟨c, hc, hf⟩ := Option.bind_eq_some_iff.1 hf
    exact Nat.le_of_lt (Nat.lt_of_lt_of_le (h.above _ _ (h.inside?_eq_some.1 hc).1).1 (ih hf))

/-- The last step of a path that is not empty, by its `name`. -/
theorem find?_concat (h : arena.Coherent) {id j : Nat} {front : List String} {name : String}
    (hf : arena.find? id (front ++ [name]) = some j) :
    ∃ p, arena.find? id front = some p ∧ j ∈ (arena.folder p).children ∧
      (arena.folder j).name = name := by
  rw [find?_append] at hf
  obtain ⟨p, hp, hf⟩ := Option.bind_eq_some_iff.1 hf
  obtain ⟨c, hc, hj⟩ := Option.bind_eq_some_iff.1 hf
  cases hj
  exact ⟨p, hp, h.inside?_eq_some.1 hc⟩

/-- **Two paths from the root never meet** in one folder `j`. -/
theorem find?_inj (h : arena.Coherent) {j : Nat} {segs segs' : List String}
    (hf : arena.find? root segs = some j) (hf' : arena.find? root segs' = some j) :
    segs = segs' := by
  -- by induction on the length, comparing the last steps: a folder has one parent and one name
  induction segs using List.reverseRecOn generalizing j segs' with
  | nil =>
    cases hf
    rcases List.eq_nil_or_concat segs' with rfl | ⟨front, name, rfl⟩
    · rfl
    · obtain ⟨p, -, hc, -⟩ := h.find?_concat (by simpa using hf')
      exact absurd (h.above _ _ hc).1 (Nat.not_lt_zero _)
  | append_singleton front name ih =>
    obtain ⟨p, hp, hc, hn⟩ := h.find?_concat hf
    rcases List.eq_nil_or_concat segs' with rfl | ⟨front', name', rfl⟩
    · cases hf'
      exact absurd (h.above _ _ hc).1 (Nat.not_lt_zero _)
    · obtain ⟨p', hp', hc', hn'⟩ := h.find?_concat (by simpa using hf')
      obtain rfl := h.parent _ _ _ hc hc'
      rw [ih hp hp', ← hn, hn']
      simp

end Coherent

/-! ## A new folder -/

/-- The arena with a new folder `name` inside the folder `p`. -/
def grow (arena : FolderArena) (p : Nat) (name : String) : FolderArena :=
  ⟨(arena.folders.push { name }).modify p fun f =>
    { f with children := f.children ++ [arena.size], index := f.index ++ [(name, arena.size)] }⟩

theorem child_cases (arena : FolderArena) (p : Nat) (name : String) :
    (∃ c, arena.inside? p name = some c ∧ arena.child p name = (arena, c)) ∨
      (arena.inside? p name = none ∧ arena.child p name = (arena.grow p name, arena.size)) := by
  unfold child
  cases hc : (arena.folder p).index.lookup name with
  | some c => exact .inl ⟨c, hc, rfl⟩
  | none => exact .inr ⟨hc, rfl⟩

@[simp] theorem size_grow (arena : FolderArena) (p : Nat) (name : String) :
    (arena.grow p name).size = arena.size + 1 := by
  simp [grow, size]

theorem folder_grow {p : Nat} (hp : p < arena.size) (name : String) (id : Nat) :
    (arena.grow p name).folder id =
      if id = p then
        { arena.folder p with
          children := (arena.folder p).children ++ [arena.size]
          index := (arena.folder p).index ++ [(name, arena.size)] }
      else if id = arena.size then { name } else arena.folder id := by
  have hp' : p < arena.folders.size := hp
  simp only [grow, folder, size, Array.getD_eq_getD_getElem?, Array.getElem?_modify,
    Array.getElem?_push]
  by_cases h : id = p
  · subst h
    simp [Nat.ne_of_lt hp', Array.getElem?_eq_getElem hp']
  · simp only [h, Ne.symm h, if_false]
    by_cases hs : id = arena.folders.size <;> simp [hs]

section
variable {p : Nat} {name : String} (hp : p < arena.size)
include hp

theorem mem_children_grow {q c : Nat} :
    c ∈ ((arena.grow p name).folder q).children ↔
      c ∈ (arena.folder q).children ∨ q = p ∧ c = arena.size := by
  rw [folder_grow hp]
  by_cases hq : q = p
  · subst hq; simp
  · by_cases hs : q = arena.size
    · simp [hs, folder_of_size_le (Nat.le_refl _), Ne.symm (Nat.ne_of_lt hp)]
    · simp [hq, hs]

theorem name_grow {c : Nat} :
    ((arena.grow p name).folder c).name =
      if c = arena.size then name else (arena.folder c).name := by
  rw [folder_grow hp]
  by_cases hc : c = p
  · subst hc; simp [Nat.ne_of_lt hp]
  · by_cases hs : c = arena.size
    · simp [hs, Ne.symm (Nat.ne_of_lt hp)]
    · simp [hc, hs]

@[simp] theorem mark_grow (id : Nat) :
    ((arena.grow p name).folder id).mark = (arena.folder id).mark := by
  rw [folder_grow hp]
  by_cases hq : id = p
  · subst hq; simp
  · by_cases hs : id = arena.size
    · simp [hs, folder_of_size_le (Nat.le_refl _), Ne.symm (Nat.ne_of_lt hp)]
    · simp [hq, hs]

/-- **A new folder `name` keeps the invariant.** -/
theorem Coherent.grow (h : arena.Coherent) (hnew : arena.inside? p name = none) :
    (arena.grow p name).Coherent := by
  have hold : ∀ q, ∀ c ∈ (arena.folder q).children,
      ((arena.grow p name).folder c).name = (arena.folder c).name := by
    intro q c hc
    rw [name_grow hp, if_neg (Nat.ne_of_lt (h.above q c hc).2)]
  have hmap : ∀ q, (arena.folder q).children.map
      (fun c => ((arena.grow p name).folder c).name) =
        (arena.folder q).children.map fun c => (arena.folder c).name :=
    fun q => List.map_congr_left (hold q)
  have hpair : ∀ q, (arena.folder q).children.map
      (fun c => (((arena.grow p name).folder c).name, c)) = (arena.folder q).index := by
    intro q
    rw [h.index q]
    exact List.map_congr_left fun c hc => by rw [hold q c hc]
  have hsize : ((arena.grow p name).folder arena.size).name = name := by simp [name_grow hp]
  refine ⟨by simp [root], fun q => ?_, fun q => ?_, fun q c hc => ?_, fun q r c hq hr => ?_,
    fun c hc hlt => ?_⟩
  · rw [folder_grow hp name q]
    by_cases hq : q = p
    · subst hq; simp [hpair, hsize]
    · by_cases hs : q = arena.size <;> simp [hq, hs, hpair, Ne.symm (Nat.ne_of_lt hp)]
  · have hlist := folder_grow hp name q
    by_cases hq : q = p
    · subst hq
      rw [hlist]
      simp only [if_true, List.map_append, hmap, List.map_cons, List.map_nil, hsize]
      refine List.nodup_append.2 ⟨h.names q, by simp, ?_⟩
      rintro a ha b hb rfl
      obtain ⟨c, hc, rfl⟩ := List.mem_map.1 ha
      have hin := h.inside?_eq_some.2 ⟨hc, List.mem_singleton.1 hb⟩
      rw [hnew] at hin
      cases hin
    · rw [hlist]
      by_cases hs : q = arena.size
      · simp [hs, Ne.symm (Nat.ne_of_lt hp)]
      · simpa [hq, hs, hmap] using h.names q
  · rcases (mem_children_grow hp).1 hc with hc | ⟨rfl, rfl⟩
    · have := h.above q c hc
      simp only [size_grow]
      omega
    · simp [hp]
  · rcases (mem_children_grow hp).1 hq with hq | ⟨hqp, hc⟩ <;>
      rcases (mem_children_grow hp).1 hr with hr | ⟨hrp, hc'⟩
    · exact h.parent q r c hq hr
    · exact absurd (h.above q c hq).2 (by omega)
    · exact absurd (h.above r c hr).2 (by omega)
    · rw [hqp, hrp]
  · by_cases hs : c = arena.size
    · exact ⟨p, (mem_children_grow hp).2 (.inr ⟨rfl, hs⟩)⟩
    · obtain ⟨q, hq⟩ := h.reached c hc (by simp only [size_grow] at hlt; omega)
      exact ⟨q, (mem_children_grow hp).2 (.inl hq)⟩

end

/-! ## Making the folders on a path -/

/-- `after` has all folders of `arena` where they were, with their marks; whatever else it has is
new. -/
structure Grows (arena after : FolderArena) : Prop where
  size_le : arena.size ≤ after.size
  keeps : ∀ q segs j, arena.find? q segs = some j → after.find? q segs = some j
  fresh : ∀ q segs j, after.find? q segs = some j →
    arena.find? q segs = some j ∨ arena.size ≤ j
  marks : ∀ j, (after.folder j).mark = (arena.folder j).mark

theorem Grows.refl (arena : FolderArena) : arena.Grows arena :=
  ⟨Nat.le_refl _, fun _ _ _ h => h, fun _ _ _ h => .inl h, fun _ => rfl⟩

theorem Grows.trans {a b c : FolderArena} (h : a.Grows b) (h' : b.Grows c) : a.Grows c where
  size_le := Nat.le_trans h.size_le h'.size_le
  keeps q segs j hf := h'.keeps q segs j (h.keeps q segs j hf)
  fresh q segs j hf := by
    rcases h'.fresh q segs j hf with hf | hj
    · exact h.fresh q segs j hf
    · exact .inr (Nat.le_trans h.size_le hj)
  marks j := (h'.marks j).trans (h.marks j)

theorem inside?_grow {p : Nat} (hp : p < arena.size) {name : String}
    (hnew : arena.inside? p name = none) (q : Nat) (n : String) :
    (arena.grow p name).inside? q n =
      if q = p ∧ n = name then some arena.size else arena.inside? q n := by
  unfold inside? at hnew ⊢
  rw [folder_grow hp]
  by_cases hq : q = p
  · subst hq
    simp only [if_true, true_and, List.lookup_append]
    by_cases hn : n = name
    · subst hn; simp [hnew]
    · simp [hn, List.lookup_cons, show (n == name) = false by simpa using hn]
  · by_cases hs : q = arena.size
    · subst hs
      simp [hq, folder_of_size_le (Nat.le_refl _)]
    · simp [hq, hs]

theorem grows_grow (h : arena.Coherent) {p : Nat} (hp : p < arena.size) {name : String}
    (hnew : arena.inside? p name = none) : arena.Grows (arena.grow p name) := by
  have hin := inside?_grow hp hnew
  refine ⟨by simp, fun q segs j hf => ?_, fun q segs j hf => ?_, mark_grow hp⟩
  · induction segs generalizing q with
    | nil => exact hf
    | cons n rest ih =>
      obtain ⟨c, hc, hf⟩ := Option.bind_eq_some_iff.1 hf
      have hne : ¬(q = p ∧ n = name) := by
        rintro ⟨rfl, rfl⟩
        rw [hnew] at hc
        cases hc
      exact Option.bind_eq_some_iff.2 ⟨c, by rw [hin, if_neg hne, hc], ih c hf⟩
  · induction segs generalizing q with
    | nil => exact .inl hf
    | cons n rest ih =>
      obtain ⟨c, hc, hf⟩ := Option.bind_eq_some_iff.1 hf
      rw [hin] at hc
      by_cases hqn : q = p ∧ n = name
      · rw [if_pos hqn] at hc
        cases hc
        exact .inr ((h.grow hp hnew).le_find? hf)
      · rw [if_neg hqn] at hc
        rcases ih c hf with hf | hj
        · exact .inl (Option.bind_eq_some_iff.2 ⟨c, hc, hf⟩)
        · exact .inr hj

/-- **The folders on the path `segs` are made**, and the path leads to the folder that is
returned. -/
theorem descend_spec (h : arena.Coherent) {id : Nat} (hid : id < arena.size)
    (segs : List String) :
    (arena.descend id segs).1.Coherent ∧ arena.Grows (arena.descend id segs).1 ∧
      (arena.descend id segs).1.find? id segs = some (arena.descend id segs).2 := by
  induction segs generalizing arena id with
  | nil => exact ⟨h, .refl _, rfl⟩
  | cons name rest ih =>
    simp only [descend]
    rcases child_cases arena id name with ⟨c, hc, he⟩ | ⟨hnew, he⟩
    · have hlt := (h.above _ _ (h.inside?_eq_some.1 hc).1).2
      obtain ⟨h1, h2, h3⟩ := ih h hlt
      rw [he]
      have hstep := h2.keeps id [name] c (Option.bind_eq_some_iff.2 ⟨c, hc, rfl⟩)
      exact ⟨h1, h2, by rw [← List.singleton_append, find?_append, hstep]; exact h3⟩
    · have hg := h.grow hid hnew
      have hsize : arena.size < (arena.grow id name).size := by simp
      obtain ⟨h1, h2, h3⟩ := ih hg hsize
      rw [he]
      have hc : (arena.grow id name).inside? id name = some arena.size := by
        simp [inside?_grow hid hnew]
      have hstep := h2.keeps id [name] _ (Option.bind_eq_some_iff.2 ⟨_, hc, rfl⟩)
      exact ⟨h1, (grows_grow h hid hnew).trans h2,
        by rw [← List.singleton_append, find?_append, hstep]; exact h3⟩

/-! ## Marking a folder -/

/-- The arena with a mark at the folder `id`. -/
def setMark (arena : FolderArena) (id mark : Nat) : FolderArena :=
  ⟨arena.folders.modify id fun f => { f with mark := some mark }⟩

theorem insert_eq (arena : FolderArena) (segs : List String) (mark : Nat) :
    arena.insert segs mark =
      (arena.descend root segs).1.setMark (arena.descend root segs).2 mark := rfl

theorem folder_setMark {id : Nat} (hid : id < arena.size) (mark j : Nat) :
    (arena.setMark id mark).folder j =
      if j = id then { arena.folder id with mark := some mark } else arena.folder j := by
  have hid' : id < arena.folders.size := hid
  simp only [setMark, folder, Array.getD_eq_getD_getElem?, Array.getElem?_modify]
  by_cases h : j = id
  · subst h; simp [Array.getElem?_eq_getElem hid']
  · simp [h, Ne.symm h]

section
variable {id : Nat} (hid : id < arena.size) (mark : Nat)
include hid

@[simp] theorem children_setMark (j : Nat) :
    ((arena.setMark id mark).folder j).children = (arena.folder j).children := by
  rw [folder_setMark hid]
  by_cases h : j = id <;> simp [h]

@[simp] theorem index_setMark (j : Nat) :
    ((arena.setMark id mark).folder j).index = (arena.folder j).index := by
  rw [folder_setMark hid]
  by_cases h : j = id <;> simp [h]

@[simp] theorem name_setMark (j : Nat) :
    ((arena.setMark id mark).folder j).name = (arena.folder j).name := by
  rw [folder_setMark hid]
  by_cases h : j = id <;> simp [h]

theorem find?_setMark (q : Nat) (segs : List String) :
    (arena.setMark id mark).find? q segs = arena.find? q segs := by
  induction segs generalizing q with
  | nil => rfl
  | cons name rest ih =>
    simp only [find?, inside?, index_setMark hid, ih]

theorem Coherent.setMark (h : arena.Coherent) : (arena.setMark id mark).Coherent := by
  have hsize : (arena.setMark id mark).size = arena.size := by simp [FolderArena.setMark, size]
  refine ⟨hsize ▸ h.pos, fun p => ?_, fun p => ?_, fun p c hc => ?_, fun p q c hp hq => ?_,
    fun c hc hlt => ?_⟩
  · simpa [hid] using h.index p
  · simpa [hid] using h.names p
  · rw [children_setMark hid] at hc
    rw [hsize]
    exact h.above p c hc
  · rw [children_setMark hid] at hp hq
    exact h.parent p q c hp hq
  · obtain ⟨p, hp⟩ := h.reached c hc (hsize ▸ hlt)
    exact ⟨p, by rwa [children_setMark hid]⟩

end

/-- **An insertion of `segs` keeps the invariant.** -/
theorem coherent_insert (h : arena.Coherent) (segs : List String) (mark : Nat) :
    (arena.insert segs mark).Coherent := by
  obtain ⟨h1, -, h3⟩ := descend_spec h h.pos segs
  rw [insert_eq]
  exact h1.setMark (h1.find?_lt h1.pos h3) mark

/-- **An insertion changes the mark at its own path `segs`** and no other. -/
theorem markAt?_insert (h : arena.Coherent) (segs segs' : List String) (mark : Nat) :
    (arena.insert segs mark).markAt? segs' =
      if segs' = segs then some mark else arena.markAt? segs' := by
  obtain ⟨h1, h2, h3⟩ := descend_spec h h.pos segs
  have hlt := h1.find?_lt h1.pos h3
  rw [insert_eq]
  unfold markAt?
  rw [find?_setMark hlt]
  by_cases hs : segs' = segs
  · subst hs
    simp [h3, folder_setMark hlt]
  · rw [if_neg hs]
    cases hf : (arena.descend root segs).1.find? root segs' with
    | none =>
      cases hold : arena.find? root segs' with
      | none => rfl
      | some j => exact absurd (h2.keeps _ _ _ hold) (by simp [hf])
    | some j =>
      have hj : j ≠ (arena.descend root segs).2 := fun he => hs (h1.find?_inj (he ▸ hf) h3)
      simp only [Option.bind_some, folder_setMark hlt, if_neg hj, h2.marks]
      rcases h2.fresh _ _ _ hf with hold | hge
      · simp [hold]
      · -- a folder that has just been made has no mark, and no old one has its path
        cases hold : arena.find? root segs' with
        | none => simp [folder_of_size_le hge]
        | some i =>
          obtain rfl : i = j := by
            have := h2.keeps _ _ _ hold
            rw [hf] at this
            exact (Option.some.inj this).symm
          simp

theorem folder_empty (p : Nat) : empty.folder p = {} := by
  cases p with
  | zero => rfl
  | succ p => exact folder_of_size_le (by simp [size, empty])

@[simp] theorem markAt?_empty (segs : List String) : empty.markAt? segs = none := by
  cases segs with
  | nil => rfl
  | cons name rest => simp [markAt?, find?, inside?, folder_empty]

theorem coherent_empty : empty.Coherent := by
  have hf := folder_empty
  refine ⟨Nat.zero_lt_one, fun p => ?_, fun p => ?_, fun p c hc => ?_, fun p q c hp => ?_,
    fun c hc hlt => ?_⟩
  · simp [hf]
  · simp [hf]
  · simp [hf] at hc
  · simp [hf] at hp
  · exact absurd hlt (by simp [size, empty]; omega)

theorem ofPaths_concat (paths : List (List String)) (path : List String) :
    ofPaths (paths ++ [path]) = (ofPaths paths).insert path paths.length := by
  simp [ofPaths, List.zipIdx_append]

/-- The arena after the insertions of `steps`, each a path and its mark. -/
def inserted (steps : List (List String × Nat)) : FolderArena :=
  steps.foldl (fun arena step => arena.insert step.1 step.2) empty

theorem inserted_concat (steps : List (List String × Nat)) (step : List String × Nat) :
    inserted (steps ++ [step]) = (inserted steps).insert step.1 step.2 := by
  simp [inserted]

/-- **The invariant holds after any insertions**: the arena is `Coherent`. -/
theorem coherent_inserted (steps : List (List String × Nat)) : (inserted steps).Coherent := by
  induction steps using List.reverseRecOn with
  | nil => exact coherent_empty
  | append_singleton steps step ih =>
    rw [inserted_concat]
    exact coherent_insert ih step.1 step.2

/-- **The arena of any `paths` is a tree.** -/
theorem coherent_ofPaths (paths : List (List String)) : (ofPaths paths).Coherent :=
  coherent_inserted paths.zipIdx

end FlowMigration.FolderArena
