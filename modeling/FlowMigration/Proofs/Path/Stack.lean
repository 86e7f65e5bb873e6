import FlowMigration.Proofs.Path.Pieces
import Mathlib.Data.List.Induction

/-!
# Paths whose dots are worked off

A path is cleaned component by component (`Path.clean`). From the root on this is a stack of names,
on which the segments of the path are put one after the other (`Path.normalize`).

* `pushSegment`, `normalize`: what a segment does to the stack, and what is left at the end.
* `clean_slash`: a path from the root on is cleaned to the names left on the stack.
* `isName_of_mem_normalize`, `normalize_names`: names are left, and names are left as they are.
* `Canonical`, `canonical_iff`: the paths that names make.
-/

namespace FlowMigration.Path

/-- What `segment` does to the `stack`, which grows at its end: an empty segment or a dot leaves it,
two dots pop it unless it is empty, every other segment is pushed. -/
def pushSegment (stack : List String) (segment : String) : List String :=
  if segment = "" ∨ segment = "." then stack
  else if segment = ".." then stack.dropLast
  else stack ++ [segment]

/-- The names left after the segments `segs` have been put on the stack from left to right, by
`pushSegment`. -/
def normalize (segs : List String) : List String :=
  segs.foldl pushSegment []

/-! ## The stack -/

theorem pushSegment_up (stack : List String) : pushSegment stack ".." = stack.dropLast := rfl

theorem pushSegment_name {name : String} (h : IsName name) (stack : List String) :
    pushSegment stack name = stack ++ [name] := by
  rw [pushSegment, if_neg fun hidle => hidle.elim h.ne_empty h.ne_here, if_neg h.ne_up]

theorem normalize_append (front back : List String) :
    normalize (front ++ back) = back.foldl pushSegment (normalize front) :=
  List.foldl_append

/-- Segments `idle` that leave the stack where they stand may be left out. -/
theorem normalize_insert {front idle : List String}
    (h : idle.foldl pushSegment (normalize front) = normalize front) (back : List String) :
    normalize (front ++ (idle ++ back)) = normalize (front ++ back) := by
  rw [normalize_append, List.foldl_append, h, ← normalize_append]

theorem foldl_pushSegment_names {names : List String} (h : ∀ n ∈ names, IsName n)
    (stack : List String) : names.foldl pushSegment stack = stack ++ names := by
  induction names generalizing stack with
  | nil => exact (List.append_nil stack).symm
  | cons n names ih =>
    rw [List.foldl_cons, pushSegment_name (h n List.mem_cons_self),
      ih fun m hm => h m (List.mem_cons_of_mem _ hm), List.append_assoc]
    rfl

/-- **Names are left as they are** by `normalize`. -/
theorem normalize_names {names : List String} (h : ∀ n ∈ names, IsName n) :
    normalize names = names :=
  foldl_pushSegment_names h []

theorem mem_pushSegment {stack : List String} {segment name : String}
    (h : name ∈ pushSegment stack segment) :
    name ∈ stack ∨ name = segment ∧ segment ≠ "" ∧ segment ≠ "." ∧ segment ≠ ".." := by
  unfold pushSegment at h
  split at h
  · exact .inl h
  · next hidle =>
    rw [not_or] at hidle
    split at h
    · exact .inl (List.dropLast_subset _ h)
    · next hup =>
      rcases List.mem_append.1 h with h | h
      · exact .inl h
      · exact .inr ⟨List.mem_singleton.1 h, hidle.1, hidle.2, hup⟩

/-- **What `normalize` leaves** are segments, and none of them is empty or dots. -/
theorem mem_normalize {segs : List String} {name : String} (h : name ∈ normalize segs) :
    name ∈ segs ∧ name ≠ "" ∧ name ≠ "." ∧ name ≠ ".." := by
  induction segs using List.reverseRecOn with
  | nil => cases h
  | append_singleton segs segment ih =>
    rw [normalize_append, List.foldl_cons, List.foldl_nil] at h
    rcases mem_pushSegment h with h | ⟨rfl, hname⟩
    · obtain ⟨hmem, hname⟩ := ih h
      exact ⟨List.mem_append_left _ hmem, hname⟩
    · exact ⟨List.mem_append_right _ (List.mem_singleton_self _), hname⟩

theorem isName_of_mem_normalize {segs : List String} (h : ∀ s ∈ segs, '/' ∉ s.toList)
    {name : String} (hname : name ∈ normalize segs) : IsName name := by
  obtain ⟨hmem, hempty, hhere, hup⟩ := mem_normalize hname
  exact ⟨hempty, hhere, hup, h name hmem⟩

/-! ## Cleaning -/

/-- The components of the path that `names` make from the root on. -/
def rooted (names : List String) : List Component := .root :: names.map .name

theorem rooted_concat (names : List String) (last : String) :
    rooted (names ++ [last]) = rooted names ++ [.name last] := by
  simp [rooted]

theorem cleanStep_up_rooted (names : List String) :
    cleanStep (rooted names) .up = rooted names.dropLast := by
  rcases List.eq_nil_or_concat names with rfl | ⟨front, last, rfl⟩
  · rfl
  · rw [List.concat_eq_append, rooted_concat, cleanStep, List.getLast?_concat]
    simp

/-- **Cleaning is the stack**: what a piece of a path does to the components that are done is what
`pushSegment` does to their names. -/
theorem foldl_cleanStep_rooted (ps : List (List Char)) (names : List String) :
    (ps.filterMap component?).foldl cleanStep (rooted names) =
      rooted ((ps.map String.ofList).foldl pushSegment names) := by
  induction ps generalizing names with
  | nil => rfl
  | cons p ps ih =>
    rw [List.filterMap_cons, List.map_cons, List.foldl_cons, ← ih]
    by_cases hidle : p = [] ∨ p = ['.']
    · have hsame : pushSegment names (String.ofList p) = names := by
        rcases hidle with rfl | rfl <;> rfl
      rw [component?, if_pos hidle, hsame]
    · by_cases hup : p = ['.', '.']
      · rw [component?, if_neg hidle, if_pos hup, hup, List.foldl_cons, cleanStep_up_rooted]
        rfl
      · have hpush : pushSegment names (String.ofList p) = names ++ [String.ofList p] := by
          have hempty : String.ofList p ≠ "" := fun he => hidle (.inl (String.ofList_injective he))
          have hhere : String.ofList p ≠ "." := fun he => hidle (.inr (String.ofList_injective he))
          have hdots : String.ofList p ≠ ".." := fun he => hup (String.ofList_injective he)
          rw [pushSegment, if_neg fun h => h.elim hempty hhere, if_neg hdots]
        rw [component?, if_neg hidle, if_neg hup, List.foldl_cons, hpush, rooted_concat]
        rfl

theorem joinAll_slash {names : List String} (h : ∀ n ∈ names, IsName n) :
    joinAll "/" names = "/" ++ ofSegments names := by
  cases names with
  | nil => rfl
  | cons n names =>
    apply String.toList_injective
    rw [joinAll_eq_join (by decide) (List.cons_ne_nil n names) h,
      toList_join (by decide) (not_absolute_ofSegments (h n List.mem_cons_self)), String.toList_append]
    rfl

/-- **A path from the root on** is cleaned to the names that `normalize` leaves of its segments. -/
theorem clean_slash (path : String) :
    clean ("/" ++ path) = "/" ++ ofSegments (normalize (segments path)) := by
  have hcomponents : components ("/" ++ path) =
      .root :: (pieces path.toList).filterMap component? := by
    rw [components, String.toList_append]
    rfl
  have hdone : (components ("/" ++ path)).foldl cleanStep [] =
      rooted (normalize (segments path)) := by
    rw [hcomponents, List.foldl_cons]
    exact foldl_cleanStep_rooted (pieces path.toList) []
  have htexts : (rooted (normalize (segments path))).map Component.text =
      "/" :: normalize (segments path) := by
    simp [rooted, Component.text, Function.comp_def]
  rw [clean, hdone]
  show joinAll "" ((rooted (normalize (segments path))).map Component.text) = _
  rw [htexts, ← joinAll_slash fun n => isName_of_mem_normalize fun s => no_slash_of_mem_segments]
  rfl

/-! ## Texts and their segments -/

/-- The character `c` that no segment holds is not in the path either, unless it is the slash. -/
theorem not_mem_ofSegments {c : Char} (hc : c ≠ '/') {segs : List String}
    (h : ∀ s ∈ segs, c ∉ s.toList) : c ∉ (ofSegments segs).toList := by
  rw [toList_ofSegments]
  intro hmem
  rcases mem_unpieces hmem with hslash | ⟨p, hp, hmem⟩
  · exact hc hslash
  · obtain ⟨s, hs, rfl⟩ := List.mem_map.1 hp
    exact h s hs hmem

theorem not_mem_segment {c : Char} {path : String} (h : c ∉ path.toList) {segment : String}
    (hsegment : segment ∈ segments path) : c ∉ segment.toList := by
  obtain ⟨p, hp, rfl⟩ := List.mem_map.1 hsegment
  rw [String.toList_ofList]
  exact fun hmem => h (mem_of_mem_pieces hp hmem)

/-- A text `front` behind which a segment begins. -/
def IsFront (front : String) : Prop := front = "" ∨ ∃ path, front = path ++ "/"

theorem IsFront.exists_segments {front : String} (h : IsFront front) :
    ∃ lead, segments front = lead ++ [""] ∧
      ∀ rest, segments (front ++ rest) = lead ++ segments rest := by
  rcases h with rfl | ⟨path, rfl⟩
  · refine ⟨[], rfl, fun rest => ?_⟩
    rw [String.empty_append]
    rfl
  · refine ⟨segments path, ?_, segments_append_slash path⟩
    have hclosed := segments_append_slash path ""
    rwa [String.append_empty] at hclosed

/-! ## Canonical paths -/

/-- No segment of `path` is empty or dots, unless the path itself is empty. -/
def Canonical (path : String) : Prop :=
  path = "" ∨ ∀ segment ∈ segments path, segment ≠ "" ∧ segment ≠ "." ∧ segment ≠ ".."

instance (path : String) : Decidable (Canonical path) :=
  inferInstanceAs (Decidable (_ ∨ _))

/-- **`Canonical` paths** are those that names make. -/
theorem canonical_iff {path : String} :
    Canonical path ↔ ∃ names, (∀ n ∈ names, IsName n) ∧ path = ofSegments names := by
  constructor
  · rintro (rfl | h)
    · exact ⟨[], by simp, rfl⟩
    · refine ⟨segments path, fun n hn => ?_, (ofSegments_segments path).symm⟩
      obtain ⟨hempty, hhere, hup⟩ := h n hn
      exact ⟨hempty, hhere, hup, no_slash_of_mem_segments hn⟩
  · rintro ⟨names, hnames, rfl⟩
    by_cases hnone : names = []
    · exact .inl (hnone ▸ rfl)
    · refine .inr fun segment hsegment => ?_
      rw [segments_ofNames hnone hnames] at hsegment
      have hname := hnames segment hsegment
      exact ⟨hname.ne_empty, hname.ne_here, hname.ne_up⟩

theorem Canonical.ne_up {path : String} (h : Canonical path) {segment : String}
    (hsegment : segment ∈ segments path) : segment ≠ ".." := by
  rcases h with rfl | h
  · rw [segments_of_no_slash (by decide), List.mem_singleton] at hsegment
    exact hsegment ▸ by decide
  · exact (h segment hsegment).2.2

theorem eq_nil_of_ofNames_eq_empty {names : List String} (h : ∀ n ∈ names, IsName n)
    (hempty : ofSegments names = "") : names = [] :=
  ofNames_inj h (by simp) hempty

theorem canonical_normalize {segs : List String} (h : ∀ s ∈ segs, '/' ∉ s.toList) :
    Canonical (ofSegments (normalize segs)) :=
  canonical_iff.2 ⟨_, fun _ => isName_of_mem_normalize h, rfl⟩

/-- **`Canonical` paths are those that `normalize` leaves alone.** -/
theorem canonical_iff_normalize {path : String} :
    Canonical path ↔ ofSegments (normalize (segments path)) = path := by
  constructor
  · intro h
    obtain ⟨names, hnames, rfl⟩ := canonical_iff.1 h
    by_cases hnone : names = []
    · rw [hnone]
      rfl
    · rw [segments_ofNames hnone hnames, normalize_names hnames]
  · intro h
    exact h ▸ canonical_normalize fun s => no_slash_of_mem_segments

end FlowMigration.Path
