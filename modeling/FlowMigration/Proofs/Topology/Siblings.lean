import FlowMigration.Proofs.Topology.Nesting
import Mathlib.Data.List.Sort

/-!
# The order of packages

Folders get their numbers when a path first leads through them, and the folders inside a folder
stand in the order of their numbers. So packages are gone through in post-order, and of two that lie
beside each other that one comes first through whose folder a path led first.

* `FolderArena.Ascending`, `FolderArena.Numbered`: both facts, kept by every insertion
  (`ascending_ofPaths`, `numbered_ofPaths`).
* `Topology.PostOrder`: the order of places when those inside come first, given an order of the
  folders inside each folder.
* `Topology.postOrder_collect`, `Topology.postOrder_build`: the order of a topology.
-/

namespace FlowMigration

namespace FolderArena

variable {arena : FolderArena}

/-! ## Folders inside a folder -/

/-- The folders inside a folder stand in the order of their numbers. -/
def Ascending (arena : FolderArena) : Prop := ∀ p, (arena.folder p).children.Pairwise (· < ·)

theorem Ascending.grow (ha : arena.Ascending) (h : arena.Coherent) {p : Nat} (hp : p < arena.size)
    (name : String) : (arena.grow p name).Ascending := by
  intro q
  rw [folder_grow hp]
  split
  · next heq =>
    refine List.pairwise_append.2 ⟨ha p, List.pairwise_singleton _ _, fun c hc d hd => ?_⟩
    rw [List.mem_singleton.1 hd]
    exact (h.above p c hc).2
  · split
    · exact List.Pairwise.nil
    · exact ha q

theorem Ascending.descend (ha : arena.Ascending) (h : arena.Coherent) {id : Nat}
    (hid : id < arena.size) (segs : List String) : (arena.descend id segs).1.Ascending := by
  induction segs generalizing arena id with
  | nil => exact ha
  | cons name rest ih =>
    simp only [FolderArena.descend]
    rcases child_cases arena id name with ⟨c, hc, he⟩ | ⟨hnew, he⟩
    · rw [he]
      exact ih ha h (h.above _ _ (h.inside?_eq_some.1 hc).1).2
    · rw [he]
      exact ih (ha.grow h hid name) (h.grow hid hnew) (by simp)

theorem Ascending.insert (ha : arena.Ascending) (h : arena.Coherent) (segs : List String)
    (mark : Nat) : (arena.insert segs mark).Ascending := by
  obtain ⟨hcoherent, -, hfound⟩ := descend_spec h h.pos segs
  intro q
  rw [insert_eq, children_setMark (hcoherent.find?_lt hcoherent.pos hfound)]
  exact ha.descend h h.pos segs q

/-- **The folders inside a folder** stand in the order of their numbers, whatever `paths` there
are. -/
theorem ascending_ofPaths (paths : List (List String)) : (ofPaths paths).Ascending := by
  induction paths using List.reverseRecOn with
  | nil => exact fun p => by rw [show ofPaths [] = empty from rfl, folder_empty]; exact .nil
  | append_singleton paths path ih =>
    rw [ofPaths_concat]
    exact ih.insert (coherent_ofPaths paths) path paths.length

/-! ## What a path makes -/

/-- Of the ways from the folder `id` only those to the new folder are new. -/
theorem find?_grow {p : Nat} (hp : p < arena.size) {name : String}
    (hnew : arena.inside? p name = none) {id j : Nat} {place : List String}
    (hj : (arena.grow p name).find? id place = some j) :
    arena.find? id place = some j ∨
      ∃ front, arena.find? id front = some p ∧ place = front ++ [name] := by
  induction place generalizing id with
  | nil => exact .inl hj
  | cons n rest ih =>
    obtain ⟨c, hc, hj⟩ := Option.bind_eq_some_iff.1 hj
    rw [inside?_grow hp hnew] at hc
    split at hc
    · next heq =>
      obtain ⟨rfl, rfl⟩ := heq
      cases hc
      -- nothing is inside the new folder yet
      cases rest with
      | nil => exact .inr ⟨[], rfl, rfl⟩
      | cons n' rest =>
        obtain ⟨d, hd, -⟩ := Option.bind_eq_some_iff.1 hj
        rw [inside?_grow hp hnew, if_neg fun heq => Nat.ne_of_gt hp heq.1, inside?,
          folder_of_size_le (Nat.le_refl _)] at hd
        cases hd
    · rcases ih hj with hold | ⟨front, hfront, rfl⟩
      · exact .inl (Option.bind_eq_some_iff.2 ⟨c, hc, hold⟩)
      · exact .inr ⟨n :: front, Option.bind_eq_some_iff.2 ⟨c, hc, hfront⟩, rfl⟩

/-- Only the places on `segs` are made for this path. -/
theorem prefix_of_descend (h : arena.Coherent) {id j : Nat} (hid : id < arena.size)
    {front segs place : List String} (hfront : arena.find? root front = some id)
    (hj : (arena.descend id segs).1.find? root place = some j) :
    arena.find? root place = some j ∨ place <+: front ++ segs := by
  induction segs generalizing arena id front with
  | nil => exact .inl hj
  | cons name rest ih =>
    simp only [FolderArena.descend] at hj
    have hstep {after : FolderArena} {c : Nat} (hf : after.find? root front = some id)
        (hc : after.inside? id name = some c) : after.find? root (front ++ [name]) = some c := by
      rw [find?_append, hf, Option.bind_some, find?, hc]
      rfl
    have hmore : front ++ [name] ++ rest = front ++ name :: rest := by simp
    rcases child_cases arena id name with ⟨c, hc, he⟩ | ⟨hnew, he⟩
    · rw [he] at hj
      rw [← hmore]
      exact ih h (h.above _ _ (h.inside?_eq_some.1 hc).1).2 (hstep hfront hc) hj
    · rw [he] at hj
      have hc : (arena.grow id name).inside? id name = some arena.size := by
        simp [inside?_grow hid hnew]
      have hkept := (grows_grow h hid hnew).keeps _ _ _ hfront
      rcases ih (h.grow hid hnew) (by simp) (hstep hkept hc) hj with hgrown | hstart
      · rcases find?_grow hid hnew hgrown with hold | ⟨front', hfront', rfl⟩
        · exact .inl hold
        · rw [h.find?_inj hfront' hfront, ← hmore]
          exact .inr (List.prefix_append _ _)
      · exact .inr (hmore ▸ hstart)

/-- **What an insertion finds**: what was found before, and new folders on its own `path`. -/
theorem find?_insert (h : arena.Coherent) {path place : List String} {mark j : Nat}
    (hj : (arena.insert path mark).find? root place = some j) :
    arena.find? root place = some j ∨ arena.size ≤ j ∧ place <+: path := by
  obtain ⟨hcoherent, hgrows, hfound⟩ := descend_spec h h.pos path
  rw [insert_eq, find?_setMark (hcoherent.find?_lt hcoherent.pos hfound)] at hj
  rcases hgrows.fresh _ _ _ hj with hold | hnew
  · exact .inl hold
  · have hroot : arena.find? root [] = some root := rfl
    exact (prefix_of_descend h h.pos hroot hj).imp_right fun hstart => ⟨hnew, hstart⟩

theorem find?_insert_of_find? (h : arena.Coherent) {path place : List String} {mark j : Nat}
    (hj : arena.find? root place = some j) :
    (arena.insert path mark).find? root place = some j := by
  obtain ⟨hcoherent, hgrows, hfound⟩ := descend_spec h h.pos path
  rw [insert_eq, find?_setMark (hcoherent.find?_lt hcoherent.pos hfound)]
  exact hgrows.keeps _ _ _ hj

theorem exists_find?_insert (h : arena.Coherent) {path place : List String} {mark : Nat}
    (hstart : place <+: path) : ∃ j, (arena.insert path mark).find? root place = some j := by
  obtain ⟨hcoherent, -, hfound⟩ := descend_spec h h.pos path
  rw [insert_eq, find?_setMark (hcoherent.find?_lt hcoherent.pos hfound)]
  obtain ⟨rest, rfl⟩ := hstart
  rw [find?_append] at hfound
  obtain ⟨j, hj, -⟩ := Option.bind_eq_some_iff.1 hfound
  exact ⟨j, hj⟩

/-! ## The numbers of folders -/

/-- The position of the first of the `paths` that leads through `place`. -/
def firstThrough (paths : List (List String)) (place : List String) : Nat :=
  paths.findIdx fun path => place.isPrefixOf path

theorem firstThrough_lt {paths : List (List String)} {place : List String} :
    firstThrough paths place < paths.length ↔ ∃ path ∈ paths, place <+: path := by
  simp [firstThrough, List.findIdx_lt_length]

theorem firstThrough_concat_of_lt {paths : List (List String)} {place : List String}
    (h : firstThrough paths place < paths.length) (path : List String) :
    firstThrough (paths ++ [path]) place = firstThrough paths place := by
  rw [firstThrough, List.findIdx_append]
  exact if_pos h

theorem le_firstThrough_concat {paths : List (List String)} {place : List String}
    (h : ¬ firstThrough paths place < paths.length) (path : List String) :
    paths.length ≤ firstThrough (paths ++ [path]) place := by
  rw [firstThrough] at h ⊢
  rw [List.findIdx_append, if_neg h]
  exact Nat.le_add_left _ _

/-- There is a folder at every place that one of the `paths` leads through, and of two folders
inside one folder that one has the smaller number through which a path led first. -/
structure Numbered (arena : FolderArena) (paths : List (List String)) : Prop where
  found : ∀ place, (∃ j, arena.find? root place = some j) ↔
    place = [] ∨ firstThrough paths place < paths.length
  order : ∀ front x y i j, arena.find? root (front ++ [x]) = some i →
    arena.find? root (front ++ [y]) = some j → i < j →
    firstThrough paths (front ++ [x]) < firstThrough paths (front ++ [y])

/-- **An insertion** numbers the folders on its `path` that are new. -/
theorem Numbered.insert {paths : List (List String)} (hn : arena.Numbered paths)
    (h : arena.Coherent) (path : List String) (mark : Nat) :
    (arena.insert path mark).Numbered (paths ++ [path]) := by
  have hthrough (place : List String) : firstThrough (paths ++ [path]) place <
      (paths ++ [path]).length ↔ firstThrough paths place < paths.length ∨ place <+: path := by
    simp only [firstThrough_lt, List.mem_append, List.mem_singleton, or_and_right, exists_or,
      exists_eq_left]
  constructor
  · intro place
    rw [hthrough]
    constructor
    · rintro ⟨j, hj⟩
      rcases find?_insert h hj with hold | ⟨-, hstart⟩
      · exact ((hn.found place).1 ⟨j, hold⟩).imp_right .inl
      · exact .inr (.inr hstart)
    · rintro (rfl | hlt | hstart)
      · exact ⟨root, rfl⟩
      · obtain ⟨j, hj⟩ := (hn.found place).2 (.inr hlt)
        exact ⟨j, find?_insert_of_find? h hj⟩
      · exact exists_find?_insert h hstart
  · intro front x y i j hx hy hlt
    have hold {z : String} {k : Nat} (hz : arena.find? root (front ++ [z]) = some k) :
        firstThrough paths (front ++ [z]) < paths.length :=
      ((hn.found _).1 ⟨k, hz⟩).resolve_left (by simp)
    rcases find?_insert h hx with hx | ⟨hi, hxpath⟩
    · rw [firstThrough_concat_of_lt (hold hx)]
      by_cases hyold : firstThrough paths (front ++ [y]) < paths.length
      · obtain ⟨j', hj'⟩ := (hn.found _).2 (.inr hyold)
        obtain rfl : j' = j := Option.some.inj ((find?_insert_of_find? h hj').symm.trans hy)
        rw [firstThrough_concat_of_lt hyold]
        exact hn.order front x y i j' hx hj' hlt
      · exact Nat.lt_of_lt_of_le (hold hx) (le_firstThrough_concat hyold path)
    · rcases find?_insert h hy with hy | ⟨-, hypath⟩
      · have hj := h.find?_lt h.pos hy
        omega
      · -- one path does not lead through two folders of one folder
        have hsame : front ++ [x] = front ++ [y] :=
          (List.prefix_of_prefix_length_le hxpath hypath (by simp)).eq_of_length (by simp)
        rw [hsame] at hx
        obtain rfl : i = j := Option.some.inj (hx.symm.trans hy)
        exact absurd hlt (Nat.lt_irrefl i)

/-- **The numbers of folders** are in the order in which `paths` first led through them. -/
theorem numbered_ofPaths (paths : List (List String)) : (ofPaths paths).Numbered paths := by
  induction paths using List.reverseRecOn with
  | nil =>
    constructor
    · intro place
      cases place with
      | nil => simp [find?]
      | cons name rest => simp [ofPaths, find?, inside?, folder_empty]
    · intro front x y i j hx
      cases front <;> simp [ofPaths, find?, inside?, folder_empty] at hx
  | append_singleton paths path ih =>
    rw [ofPaths_concat]
    exact ih.insert (coherent_ofPaths paths) path paths.length

end FolderArena

namespace Topology

open FolderArena (firstThrough)

/-! ## Post-order -/

/-- The place `a` comes before `b` in post-order: it lies inside `b`, or where the ways to them part
its folder is the first one in the given order of the folders inside `front`. -/
def PostOrder (lt : List String → String → String → Prop) (a b : List String) : Prop :=
  Encloses b a ∨
    ∃ front x y as bs, a = front ++ x :: as ∧ b = front ++ y :: bs ∧ lt front x y

/-- Places `a` and `b` of which none lies inside the other part somewhere. -/
theorem exists_parting {a b : List String} (hab : ¬ a <+: b) (hba : ¬ b <+: a) :
    ∃ front x y as bs, a = front ++ x :: as ∧ b = front ++ y :: bs ∧ x ≠ y := by
  induction a generalizing b with
  | nil => exact absurd List.nil_prefix hab
  | cons x as ih =>
    cases b with
    | nil => exact absurd List.nil_prefix hba
    | cons y bs =>
      by_cases hxy : x = y
      · subst hxy
        rw [List.cons_prefix_cons, and_iff_right rfl] at hab hba
        obtain ⟨front, x', y', as', bs', rfl, rfl, hne⟩ := ih hab hba
        exact ⟨x :: front, x', y', as', bs', rfl, rfl, hne⟩
      · exact ⟨[], x, y, as, bs, rfl, rfl, hxy⟩

/-- They part at one place only, behind `front`. -/
theorem parting_unique {front front' as bs as' bs' : List String} {x y x' y' : String}
    (ha : front ++ x :: as = front' ++ x' :: as') (hb : front ++ y :: bs = front' ++ y' :: bs')
    (hne : x ≠ y) (hne' : x' ≠ y') : front = front' ∧ x = x' ∧ y = y' := by
  induction front generalizing front' with
  | nil =>
    cases front' with
    | nil => exact ⟨rfl, (List.cons.inj ha).1, (List.cons.inj hb).1⟩
    | cons z front' =>
      exact absurd ((List.cons.inj ha).1.trans (List.cons.inj hb).1.symm) hne
  | cons z front ih =>
    cases front' with
    | nil => exact absurd ((List.cons.inj ha).1.symm.trans (List.cons.inj hb).1) hne'
    | cons z' front' =>
      obtain ⟨rfl, ha'⟩ := List.cons.inj ha
      obtain ⟨rfl, hx, hy⟩ := ih ha' (List.cons.inj hb).2
      exact ⟨rfl, hx, hy⟩

theorem not_prefix_of_parting {front as bs : List String} {x y : String} (hne : x ≠ y) :
    ¬ front ++ x :: as <+: front ++ y :: bs := by
  rw [List.prefix_append_right_inj, List.cons_prefix_cons]
  exact fun h => hne h.1

section

variable {lt : List String → String → String → Prop} {a b : List String}

/-- **`PostOrder` is asymmetric** if the orders of the folders are. -/
theorem PostOrder.asymm (hlt : ∀ front x y, lt front x y → ¬ lt front y x)
    (h : PostOrder lt a b) : ¬ PostOrder lt b a := by
  have hne {front : List String} {x y : String} (hxy : lt front x y) : x ≠ y := fun heq =>
    hlt front x y hxy (by rw [heq] at hxy ⊢; exact hxy)
  intro h'
  rcases h with hin | ⟨front, x, y, as, bs, rfl, rfl, hxy⟩
  · rcases h' with hin' | ⟨front, x, y, as, bs, rfl, rfl, hxy⟩
    · exact hin.2 (hin'.1.eq_of_length_le hin.1.length_le)
    · exact not_prefix_of_parting (hne hxy) hin.1
  · rcases h' with hin' | ⟨front', x', y', as', bs', hb, ha, hxy'⟩
    · exact not_prefix_of_parting (hne hxy) hin'.1
    · obtain ⟨rfl, rfl, rfl⟩ := parting_unique ha hb (hne hxy) (hne hxy').symm
      exact hlt front x y hxy hxy'

/-- Where places part, at `x` and `y`, `PostOrder` is the order of the folders. -/
theorem PostOrder.of_parting (hlt : ∀ front x, ¬ lt front x x) {front as bs : List String}
    {x y : String} (hne : x ≠ y) (h : PostOrder lt (front ++ x :: as) (front ++ y :: bs)) :
    lt front x y := by
  rcases h with hin | ⟨front', x', y', as', bs', ha, hb, hxy⟩
  · exact absurd hin.1 (not_prefix_of_parting hne.symm)
  · have hne' : x' ≠ y' := fun heq => hlt front' x' (by rw [← heq] at hxy; exact hxy)
    obtain ⟨rfl, rfl, rfl⟩ := parting_unique ha hb hne hne'
    exact hxy

/-- **Places in `PostOrder`** are known from what they are. -/
theorem eq_of_postOrder (hlt : ∀ front x y, lt front x y → ¬ lt front y x)
    {places places' : List (List String)} (h : places.Pairwise (PostOrder lt))
    (h' : places'.Pairwise (PostOrder lt)) (hmem : ∀ place, place ∈ places ↔ place ∈ places') :
    places = places' := by
  have hirrefl : Std.Irrefl (PostOrder lt) := ⟨fun a ha => ha.asymm hlt ha⟩
  have hantisymm : Std.Antisymm (PostOrder lt) := ⟨fun a b hab hba => absurd hba (hab.asymm hlt)⟩
  exact h.eq_of_mem_iff h' hmem

end

/-! ## The order of a topology -/

/-- The folders `x` and `y` inside the one at `front` in the order of their numbers. -/
def ByNumber (arena : FolderArena) (id : Nat) (front : List String) (x y : String) : Prop :=
  ∃ i j, arena.find? id (front ++ [x]) = some i ∧ arena.find? id (front ++ [y]) = some j ∧ i < j

theorem PostOrder.within {arena : FolderArena} (h : arena.Coherent) {id c : Nat}
    (hc : c ∈ (arena.folder id).children) {a b : List String}
    (hab : PostOrder (ByNumber arena c) a b) :
    PostOrder (ByNumber arena id) ((arena.folder c).name :: a) ((arena.folder c).name :: b) := by
  have hinside := h.inside?_eq_some.2 ⟨hc, rfl⟩
  have hfind {place : List String} {j : Nat} (hj : arena.find? c place = some j) :
      arena.find? id ((arena.folder c).name :: place) = some j :=
    Option.bind_eq_some_iff.2 ⟨c, hinside, hj⟩
  rcases hab with hin | ⟨front, x, y, as, bs, rfl, rfl, i, j, hi, hj, hlt⟩
  · exact .inl ⟨List.cons_prefix_cons.2 ⟨rfl, hin.1⟩, fun heq => hin.2 (List.cons.inj heq).2⟩
  · exact .inr ⟨_ :: front, x, y, as, bs, rfl, rfl, i, j, hfind hi, hfind hj, hlt⟩

/-- **Folders are gone through in `PostOrder`**, those inside a folder by their numbers. -/
theorem postOrder_collect {arena : FolderArena} (h : arena.Coherent) (ha : arena.Ascending)
    (records : List ManifestRecord) (fuel id : Nat) :
    ((collect arena records fuel id).map (·.parts)).Pairwise (PostOrder (ByNumber arena id)) := by
  induction fuel generalizing id with
  | zero => exact List.Pairwise.nil
  | succ fuel ih =>
    rw [List.pairwise_map]
    have hinside : (collectInside arena records fuel id).Pairwise fun e f =>
        PostOrder (ByNumber arena id) e.parts f.parts := by
      refine List.pairwise_flatMap.2 ⟨fun c hc => ?_, ?_⟩
      · exact List.pairwise_map.2 ((List.pairwise_map.1 (ih c)).imp fun hef => hef.within h hc)
      · refine (ha id).imp_of_mem fun {c d} hc hd hlt e he f hf => ?_
        obtain ⟨e, -, rfl⟩ := List.mem_map.1 he
        obtain ⟨f, -, rfl⟩ := List.mem_map.1 hf
        have hfind {c : Nat} (hc : c ∈ (arena.folder id).children) :
            arena.find? id ([] ++ [(arena.folder c).name]) = some c :=
          Option.bind_eq_some_iff.2 ⟨c, h.inside?_eq_some.2 ⟨hc, rfl⟩, rfl⟩
        exact .inr ⟨[], _, _, e.parts, f.parts, rfl, rfl, c, d, hfind hc, hfind hd, hlt⟩
    rw [collect_succ]
    split
    · refine List.pairwise_append.2 ⟨hinside, List.pairwise_singleton _ _, fun e he f hf => ?_⟩
      rw [List.mem_singleton.1 hf]
      exact .inl ⟨List.nil_prefix, parts_ne_nil_of_mem_collectInside records he⟩
    · exact hinside

/-- The folders `x` and `y` inside the one at `front` in the order in which the manifests of
`records` first led through them. -/
def ByFirst (records : List ManifestRecord) (front : List String) (x y : String) : Prop :=
  firstThrough (records.map (·.dirSegments)) (front ++ [x]) <
    firstThrough (records.map (·.dirSegments)) (front ++ [y])

/-- **A topology is in `PostOrder`**, the folders inside a folder in the order in which the
manifests first led through them. -/
theorem postOrder_build (records : List ManifestRecord) :
    ((build records).map (·.parts)).Pairwise (PostOrder (ByFirst records)) := by
  have hnumbered := FolderArena.numbered_ofPaths (records.map (·.dirSegments))
  rw [build_eq]
  refine (postOrder_collect (FolderArena.coherent_ofPaths _) (FolderArena.ascending_ofPaths _)
    records _ _).imp fun hab => ?_
  refine hab.imp_right ?_
  rintro ⟨front, x, y, as, bs, ha, hb, i, j, hi, hj, hlt⟩
  exact ⟨front, x, y, as, bs, ha, hb, hnumbered.order front x y i j hi hj hlt⟩

/-- **Which of two packages `e` and `f` comes first** is decided where the ways to them part, if
none lies inside the other. -/
theorem lt_iff_byFirst {records : List ManifestRecord} {i j : Nat} {e f : TopologyEntry}
    (he : (build records)[i]? = some e) (hf : (build records)[j]? = some f)
    {front as bs : List String} {x y : String} (ha : e.parts = front ++ x :: as)
    (hb : f.parts = front ++ y :: bs) (hne : x ≠ y) : i < j ↔ ByFirst records front x y := by
  have hpost {i j : Nat} {e f : TopologyEntry} (he : (build records)[i]? = some e)
      (hf : (build records)[j]? = some f) (hlt : i < j) :
      PostOrder (ByFirst records) e.parts f.parts := by
    obtain ⟨hi, rfl⟩ := List.getElem?_eq_some_iff.1 he
    obtain ⟨hj, rfl⟩ := List.getElem?_eq_some_iff.1 hf
    exact List.pairwise_iff_getElem.1 (List.pairwise_map.1 (postOrder_build records)) i j hi hj hlt
  have hirrefl (front : List String) (x : String) : ¬ ByFirst records front x x := Nat.lt_irrefl _
  constructor
  · intro hlt
    have := hpost he hf hlt
    rw [ha, hb] at this
    exact this.of_parting hirrefl hne
  · intro hfirst
    rcases Nat.lt_trichotomy i j with hlt | rfl | hlt
    · exact hlt
    · obtain rfl : e = f := Option.some.inj (he.symm.trans hf)
      rw [ha] at hb
      exact absurd (List.cons.inj (List.append_cancel_left hb)).1 hne
    · have := hpost hf he hlt
      rw [ha, hb] at this
      exact absurd (this.of_parting hirrefl hne.symm) (Nat.lt_asymm hfirst)

end Topology

end FlowMigration
