import FlowMigration.Path

/-!
# Paths made of names

A path that names lead to from another one (`Path.joinAll`), taken apart again. A name
(`Path.IsName`) is what a directory entry can be called: no slash, not empty, no dots with a
meaning.

* `pieces_unpieces`, `segments_ofSegments`: writing pieces with slashes between them is undone by
  splitting at the slashes.
* `pieces_joinAll`: the pieces of a path that names lead to.
* `joinAll_eq_join`: the names may be joined one by one or all at once.
* `components_joinAll`: its components are those of its base and the names.
* `relativeUnix_joinAll`: relative to its base such a path reads as its names.
* `getLast?_relativeUnix`: a relative path ends like the path itself.
-/

namespace FlowMigration.Path

/-- What a directory entry can be called: a text that `pieces` leaves whole and that stands for
itself. -/
structure IsName (name : String) : Prop where
  ne_empty : name ≠ ""
  ne_here : name ≠ "."
  ne_up : name ≠ ".."
  no_slash : '/' ∉ name.toList

instance (name : String) : Decidable (IsName name) :=
  decidable_of_iff (name ≠ "" ∧ name ≠ "." ∧ name ≠ ".." ∧ '/' ∉ name.toList)
    ⟨fun ⟨h₁, h₂, h₃, h₄⟩ => ⟨h₁, h₂, h₃, h₄⟩, fun ⟨h₁, h₂, h₃, h₄⟩ => ⟨h₁, h₂, h₃, h₄⟩⟩

/-! ## Pieces -/

theorem pieces_ne_nil (cs : List Char) : pieces cs ≠ [] := by
  cases cs with
  | nil => simp [pieces]
  | cons c rest =>
    unfold pieces
    split
    · simp
    · split <;> simp

theorem pieces_of_no_slash {cs : List Char} (h : '/' ∉ cs) : pieces cs = [cs] := by
  induction cs with
  | nil => rfl
  | cons c rest ih =>
    simp only [List.mem_cons, not_or] at h
    simp [pieces, Ne.symm h.1, ih h.2]

theorem pieces_append_slash (front rest : List Char) :
    pieces (front ++ '/' :: rest) = pieces front ++ pieces rest := by
  induction front with
  | nil => simp [pieces]
  | cons c front ih =>
    by_cases hc : c = '/'
    · subst hc; simp [pieces, ih]
    · cases hp : pieces front with
      | nil => exact absurd hp (pieces_ne_nil front)
      | cons p ps => simp [pieces, hc, ih, hp]

theorem no_slash_of_mem_pieces {cs p : List Char} (h : p ∈ pieces cs) : '/' ∉ p := by
  induction cs generalizing p with
  | nil => simp_all [pieces]
  | cons c rest ih =>
    by_cases hc : c = '/'
    · subst hc
      simp only [pieces, if_true, List.mem_cons] at h
      rcases h with rfl | h
      · exact List.not_mem_nil
      · exact ih h
    · cases hp : pieces rest with
      | nil => exact absurd hp (pieces_ne_nil rest)
      | cons q qs =>
        simp only [pieces, hc, if_false, hp, List.mem_cons] at h
        rcases h with rfl | h
        · simpa [Ne.symm hc] using ih (p := q) (by simp [hp])
        · exact ih (by simp [hp, h])

theorem unpieces_pieces (cs : List Char) : unpieces (pieces cs) = cs := by
  induction cs with
  | nil => rfl
  | cons c rest ih =>
    cases hp : pieces rest with
    | nil => exact absurd hp (pieces_ne_nil rest)
    | cons p ps =>
      rw [hp] at ih
      by_cases hc : c = '/'
      · subst hc; simp [pieces, hp, unpieces, ih]
      · cases ps <;> simp_all [pieces, unpieces]

theorem unpieces_cons {p : List Char} {ps : List (List Char)} (h : ps ≠ []) :
    unpieces (p :: ps) = p ++ '/' :: unpieces ps := by
  cases ps with
  | nil => exact absurd rfl h
  | cons q qs => rfl

theorem pieces_unpieces {ps : List (List Char)} (hne : ps ≠ []) (h : ∀ p ∈ ps, '/' ∉ p) :
    pieces (unpieces ps) = ps := by
  induction ps with
  | nil => exact absurd rfl hne
  | cons p ps ih =>
    have hp : pieces p = [p] := pieces_of_no_slash (h p (by simp))
    cases ps with
    | nil => simpa [unpieces] using hp
    | cons q qs =>
      rw [unpieces_cons (by simp), pieces_append_slash, hp,
        ih (by simp) fun r hr => h r (List.mem_cons_of_mem _ hr)]
      rfl

theorem unpieces_concat {ps : List (List Char)} (h : ps ≠ []) (last : List Char) :
    unpieces (ps ++ [last]) = unpieces ps ++ '/' :: last := by
  induction ps with
  | nil => exact absurd rfl h
  | cons p ps ih =>
    cases ps with
    | nil => rfl
    | cons q qs =>
      have hq : q :: qs ≠ [] := List.cons_ne_nil q qs
      rw [List.cons_append, unpieces_cons (by simp), ih hq, unpieces_cons hq, List.append_assoc]
      rfl

theorem exists_pieces_concat (cs : List Char) : ∃ front last, pieces cs = front ++ [last] := by
  rcases List.eq_nil_or_concat (pieces cs) with hnil | ⟨front, last, h⟩
  · exact absurd hnil (pieces_ne_nil cs)
  · exact ⟨front, last, by rw [h, List.concat_eq_append]⟩

theorem mem_of_mem_pieces {c : Char} {cs p : List Char} (hp : p ∈ pieces cs) (hc : c ∈ p) :
    c ∈ cs := by
  rw [← unpieces_pieces cs]
  generalize pieces cs = ps at hp
  induction ps with
  | nil => simp at hp
  | cons q qs ih =>
    cases qs with
    | nil => simp_all [unpieces]
    | cons r rs =>
      rw [unpieces_cons (List.cons_ne_nil r rs), List.mem_append, List.mem_cons]
      rcases List.mem_cons.1 hp with rfl | hp
      · exact .inl hc
      · exact .inr (.inr (ih hp))

theorem mem_unpieces {c : Char} {ps : List (List Char)} (h : c ∈ unpieces ps) :
    c = '/' ∨ ∃ p ∈ ps, c ∈ p := by
  induction ps with
  | nil => simp [unpieces] at h
  | cons p ps ih =>
    by_cases hps : ps = []
    · subst hps; exact .inr ⟨p, by simp, by simpa [unpieces] using h⟩
    · rw [unpieces_cons hps, List.mem_append, List.mem_cons] at h
      rcases h with h | h | h
      · exact .inr ⟨p, by simp, h⟩
      · exact .inl h
      · rcases ih h with h | ⟨q, hq, h⟩
        · exact .inl h
        · exact .inr ⟨q, List.mem_cons_of_mem _ hq, h⟩

/-! ## Segments -/

theorem toList_ofSegments (segs : List String) :
    (ofSegments segs).toList = unpieces (segs.map String.toList) := by
  simp [ofSegments]

theorem map_ofList_map_toList (segs : List String) :
    (segs.map String.toList).map String.ofList = segs := by
  simp [Function.comp_def]

theorem segments_ofSegments {segs : List String} (hne : segs ≠ [])
    (h : ∀ s ∈ segs, '/' ∉ s.toList) : segments (ofSegments segs) = segs := by
  have hs : ∀ p ∈ segs.map String.toList, '/' ∉ p := by simpa using h
  rw [segments, toList_ofSegments, pieces_unpieces (by simpa using hne) hs, map_ofList_map_toList]

theorem no_slash_of_mem_segments {path segment : String} (h : segment ∈ segments path) :
    '/' ∉ segment.toList := by
  obtain ⟨piece, hpiece, rfl⟩ := List.mem_map.1 h
  rw [String.toList_ofList]
  exact no_slash_of_mem_pieces hpiece

theorem ofSegments_segments (path : String) : ofSegments (segments path) = path := by
  apply String.toList_injective
  rw [toList_ofSegments, segments, List.map_map]
  simp only [Function.comp_def, String.toList_ofList, List.map_id']
  exact unpieces_pieces _

theorem ofSegments_inj {as bs : List String} (ha : as ≠ []) (hb : bs ≠ [])
    (has : ∀ s ∈ as, '/' ∉ s.toList) (hbs : ∀ s ∈ bs, '/' ∉ s.toList)
    (h : ofSegments as = ofSegments bs) : as = bs := by
  rw [← segments_ofSegments ha has, h, segments_ofSegments hb hbs]

theorem segments_of_no_slash {path : String} (h : '/' ∉ path.toList) : segments path = [path] := by
  rw [segments, pieces_of_no_slash h, List.map_singleton, String.ofList_toList]

theorem segments_append_slash (front rest : String) :
    segments (front ++ "/" ++ rest) = segments front ++ segments rest := by
  have htext : (front ++ "/" ++ rest).toList = front.toList ++ '/' :: rest.toList := by simp
  rw [segments, htext, pieces_append_slash, List.map_append]
  rfl

theorem segments_ofNames {names : List String} (hne : names ≠ []) (h : ∀ n ∈ names, IsName n) :
    segments (ofSegments names) = names :=
  segments_ofSegments hne fun n hn => (h n hn).no_slash

theorem ofNames_inj {names names' : List String} (h : ∀ n ∈ names, IsName n)
    (h' : ∀ n ∈ names', IsName n) (he : ofSegments names = ofSegments names') : names = names' := by
  have hempty : ∀ {ns : List String}, (∀ n ∈ ns, IsName n) → ofSegments ns = ofSegments [] →
      ns = [] := by
    intro ns hns hnil
    refine Decidable.byContradiction fun hne => ?_
    have hself := segments_ofNames hne hns
    rw [hnil] at hself
    have hsingle : segments (ofSegments []) = [""] := by decide
    rw [hsingle] at hself
    exact (hns "" (hself ▸ List.mem_singleton_self "")).ne_empty rfl
  by_cases hne : names = []
  · subst hne
    exact (hempty h' he.symm).symm
  by_cases hne' : names' = []
  · subst hne'
    exact hempty h he
  rw [← segments_ofNames hne h, he, segments_ofNames hne' h']

theorem dropLast_segments_ofNames {names : List String} (h : ∀ n ∈ names, IsName n) :
    (segments (ofSegments names)).dropLast = names.dropLast := by
  cases names with
  | nil => rfl
  | cons n names => rw [segments_ofNames (by simp) h]

theorem IsName.component? {name : String} (h : IsName name) :
    Path.component? name.toList = some (.name name) := by
  have h1 : name.toList ≠ [] := by simpa using h.ne_empty
  have h2 : name.toList ≠ ['.'] := fun he => h.ne_here (String.toList_injective he)
  have h3 : name.toList ≠ ['.', '.'] := fun he => h.ne_up (String.toList_injective he)
  simp [Path.component?, h1, h2, h3]

/-! ## Joining -/

/-- The path `base` with a slash at its end. -/
def closed (base : String) : List Char :=
  if base.toList.getLast? = some '/' then base.toList else base.toList ++ ['/']

theorem toList_join {base rel : String} (hb : base ≠ "") (hr : isAbsolute rel = false) :
    (join base rel).toList = closed base ++ rel.toList := by
  unfold join closed
  by_cases hs : base.toList.getLast? = some '/' <;> simp [hr, hb, hs]

theorem IsName.not_absolute {name : String} (h : IsName name) : isAbsolute name = false := by
  unfold isAbsolute
  cases hc : name.toList with
  | nil => rfl
  | cons c rest =>
    have hne : c ≠ '/' := fun he => h.no_slash (by simp [hc, he])
    simp [hne]

theorem ofSegments_cons {name : String} {names : List String} (h : names ≠ []) :
    (ofSegments (name :: names)).toList = name.toList ++ '/' :: (ofSegments names).toList := by
  rw [toList_ofSegments, toList_ofSegments, List.map_cons, unpieces_cons (by simpa using h)]

theorem ofSegments_append {dirs names : List String} (hdirs : dirs ≠ []) (hnames : names ≠ []) :
    ofSegments (dirs ++ names) = ofSegments dirs ++ "/" ++ ofSegments names := by
  apply String.toList_injective
  rw [String.toList_append, String.toList_append, List.append_assoc]
  induction dirs with
  | nil => exact absurd rfl hdirs
  | cons dir dirs ih =>
    by_cases hmore : dirs = []
    · have hone : (ofSegments [dir]).toList = dir.toList := by
        rw [toList_ofSegments, List.map_singleton, unpieces]
      rw [hmore, List.singleton_append, ofSegments_cons hnames, hone]
      rfl
    · rw [List.cons_append, ofSegments_cons (List.append_ne_nil_of_left_ne_nil hmore names), ih hmore,
        ofSegments_cons hmore, List.append_assoc]
      rfl

theorem not_absolute_ofSegments {name : String} {names : List String} (h : IsName name) :
    isAbsolute (ofSegments (name :: names)) = false := by
  have hhead : (ofSegments (name :: names)).toList.head? = name.toList.head? := by
    cases hc : name.toList with
    | nil => exact absurd hc (by simpa using h.ne_empty)
    | cons c rest =>
      cases names with
      | nil => simp [toList_ofSegments, unpieces, hc]
      | cons n ns => rw [ofSegments_cons (by simp), hc]; rfl
  have hname := h.not_absolute
  unfold isAbsolute at hname ⊢
  rw [hhead]
  exact hname

theorem join_ne_empty {base name : String} (hb : base ≠ "") (h : IsName name) :
    join base name ≠ "" := by
  intro he
  have := congrArg String.toList he
  rw [toList_join hb h.not_absolute] at this
  simp at this
  exact h.ne_empty this.2

theorem closed_join {base name : String} (hb : base ≠ "") (h : IsName name) :
    closed (join base name) = closed base ++ name.toList ++ ['/'] := by
  have hne : name.toList ≠ [] := by simpa using h.ne_empty
  have hlast : (closed base ++ name.toList).getLast? ≠ some '/' := by
    rw [List.getLast?_append, List.getLast?_eq_some_getLast hne, Option.some_or]
    exact fun he => h.no_slash (Option.some.inj he ▸ List.getLast_mem hne)
  rw [closed, toList_join hb h.not_absolute, if_neg hlast]

/-- **Names may be joined** one by one, by `joinAll`, or all at once. -/
theorem joinAll_eq_join {base : String} {names : List String} (hb : base ≠ "") (hne : names ≠ [])
    (h : ∀ n ∈ names, IsName n) : joinAll base names = join base (ofSegments names) := by
  induction names generalizing base with
  | nil => exact absurd rfl hne
  | cons n names ih =>
    have hn := h n (by simp)
    have hrest : ∀ m ∈ names, IsName m := fun m hm => h m (List.mem_cons_of_mem _ hm)
    cases names with
    | nil =>
      have hone : ofSegments [n] = n := by simp [ofSegments, unpieces]
      simp [joinAll, hone]
    | cons m ms =>
      have hstep : joinAll base (n :: m :: ms) = joinAll (join base n) (m :: ms) := rfl
      have hcons : (ofSegments (n :: m :: ms)).toList =
          n.toList ++ '/' :: (ofSegments (m :: ms)).toList := ofSegments_cons (by simp)
      rw [hstep, ih (join_ne_empty hb hn) (by simp) hrest]
      apply String.toList_injective
      rw [toList_join (join_ne_empty hb hn) (not_absolute_ofSegments (hrest m (by simp))),
        toList_join hb (not_absolute_ofSegments hn), closed_join hb hn, hcons]
      simp

theorem joinAll_singleton (base name : String) : joinAll base [name] = join base name := rfl

theorem joinAll_append (base : String) (front rest : List String) :
    joinAll base (front ++ rest) = joinAll (joinAll base front) rest :=
  List.foldl_append

theorem joinAll_ne_empty {base : String} {names : List String} (hb : base ≠ "")
    (h : ∀ n ∈ names, IsName n) : joinAll base names ≠ "" := by
  induction names generalizing base with
  | nil => exact hb
  | cons n names ih =>
    exact ih (join_ne_empty hb (h n (by simp))) fun m hm => h m (List.mem_cons_of_mem _ hm)

/-- Joined `names` stand one after the other, each with a slash behind it. -/
theorem closed_joinAll {base : String} {names : List String} (hb : base ≠ "")
    (h : ∀ n ∈ names, IsName n) :
    closed (joinAll base names) = closed base ++ names.flatMap (fun n => n.toList ++ ['/']) := by
  induction names generalizing base with
  | nil => rw [List.flatMap_nil, List.append_nil]; rfl
  | cons n names ih =>
    have hn := h n (by simp)
    have hstep : joinAll base (n :: names) = joinAll (join base n) names := rfl
    rw [hstep, ih (join_ne_empty hb hn) fun m hm => h m (List.mem_cons_of_mem _ hm),
      closed_join hb hn, List.flatMap_cons]
    simp

theorem pieces_flatMap {names : List String} (h : ∀ n ∈ names, IsName n) (rest : List Char) :
    pieces (names.flatMap (fun n => n.toList ++ ['/']) ++ rest) =
      names.map String.toList ++ pieces rest := by
  induction names with
  | nil => rfl
  | cons n names ih =>
    have hone := pieces_of_no_slash (h n (by simp)).no_slash
    rw [List.flatMap_cons, List.append_assoc, List.append_assoc, List.singleton_append,
      pieces_append_slash, hone, ih fun m hm => h m (List.mem_cons_of_mem _ hm)]
    rfl

theorem getLast?_pieces_join (base rel : String) :
    (pieces (join base rel).toList).getLast? = (pieces rel.toList).getLast? := by
  have hslash : ∀ front : List Char, (pieces (front ++ '/' :: rel.toList)).getLast? =
      (pieces rel.toList).getLast? := by
    intro front
    obtain ⟨init, last, hps⟩ := exists_pieces_concat rel.toList
    rw [pieces_append_slash, hps, ← List.append_assoc, List.getLast?_concat, List.getLast?_concat]
  unfold join
  split
  · rfl
  · split
    · next hs =>
      obtain ⟨ds, hd⟩ := List.getLast?_eq_some_iff.1 hs
      rw [String.toList_append, hd, List.append_assoc]
      exact hslash ds
    · rw [String.toList_append, String.toList_append, List.append_assoc]
      exact hslash base.toList

/-! ## Relative paths -/

/-- The pieces `ps` stand for something (`component?`), at either end. -/
def Solid (ps : List (List Char)) : Prop := ∀ p ∈ ps, component? p ≠ none

theorem solid_names {names : List String} (h : ∀ n ∈ names, IsName n) :
    Solid (names.map String.toList) := by
  intro p hp
  obtain ⟨n, hn, rfl⟩ := List.mem_map.1 hp
  simp [(h n hn).component?]

theorem dropComponents_append (front back : List (List Char)) :
    ∃ idle, (∀ p ∈ idle, component? p = none) ∧
      dropComponents (front.filterMap component?) (front ++ back) = some (idle ++ back) := by
  induction front with
  | nil => exact ⟨[], by simp, by simp [dropComponents]⟩
  | cons p front ih =>
    cases hp : component? p with
    | some c =>
      obtain ⟨idle, hidle, he⟩ := ih
      exact ⟨idle, hidle, by simp [hp, dropComponents, he]⟩
    | none =>
      rw [List.filterMap_cons_none hp]
      cases hw : front.filterMap component? with
      | nil =>
        refine ⟨p :: front, fun q hq => ?_, by simp [dropComponents]⟩
        rcases List.mem_cons.1 hq with rfl | hq
        · exact hp
        · exact List.filterMap_eq_nil_iff.1 hw q hq
      | cons c want =>
        obtain ⟨idle, hidle, he⟩ := ih
        rw [hw] at he
        exact ⟨idle, hidle, by simp [dropComponents, hp, he]⟩

theorem trimPieces_append {idle back : List (List Char)} (hidle : ∀ p ∈ idle, component? p = none)
    (hback : Solid back) : trimPieces (idle ++ back) = back := by
  have hfront : (idle ++ back).dropWhile (fun p => (component? p).isNone) = back := by
    rw [List.dropWhile_append_of_pos fun p hp => by simp [hidle p hp]]
    cases back with
    | nil => rfl
    | cons p back => simp [hback p (by simp)]
  have hback' : back.reverse.dropWhile (fun p => (component? p).isNone) = back.reverse := by
    cases hr : back.reverse with
    | nil => rfl
    | cons p rest =>
      have hp : p ∈ back := List.mem_reverse.1 (by simp [hr])
      simp [hback p hp]
  rw [trimPieces, trimEnd, hfront, hback', List.reverse_reverse]

/-- What is left of pieces whose components `want` have been taken off. -/
theorem trim_dropComponents {front back : List (List Char)} {want : List Component}
    (hw : want = front.filterMap component?) (hback : Solid back) :
    (dropComponents want (front ++ back)).map (fun ps => String.ofList (unpieces (trimPieces ps))) =
      some (String.ofList (unpieces back)) := by
  obtain ⟨idle, hidle, he⟩ := dropComponents_append front back
  rw [hw, he, Option.map_some, trimPieces_append hidle hback]

/-- The text that `names` lead to from a place `cs` in the middle of a path. -/
def withNames (cs : List Char) (names : List String) : List Char :=
  if names = [] then cs
  else if cs = [] ∨ cs.getLast? = some '/' then cs ++ unpieces (names.map String.toList)
  else cs ++ '/' :: unpieces (names.map String.toList)

theorem pieces_unpieces_names {names : List String} (h : ∀ n ∈ names, IsName n) (hne : names ≠ []) :
    pieces (unpieces (names.map String.toList)) = names.map String.toList := by
  apply pieces_unpieces (by simpa using hne)
  intro p hp
  obtain ⟨n, hn, rfl⟩ := List.mem_map.1 hp
  exact (h n hn).no_slash

/-- Before the `names` stand the pieces of the text; one that a slash ends with is given up. -/
theorem pieces_withNames (cs : List Char) {names : List String} (h : ∀ n ∈ names, IsName n) :
    ∃ front, pieces (withNames cs names) = front ++ names.map String.toList ∧
      (pieces cs = front ∨ pieces cs = front ++ [[]]) := by
  unfold withNames
  by_cases hn : names = []
  · exact ⟨pieces cs, by simp [hn], .inl rfl⟩
  · have hx := pieces_unpieces_names h hn
    rw [if_neg hn]
    split
    · next hcs =>
      rcases hcs with rfl | hlast
      · exact ⟨[], by simp [hx], .inr rfl⟩
      · obtain ⟨ds, rfl⟩ : ∃ ds, cs = ds ++ ['/'] := List.getLast?_eq_some_iff.1 hlast
        exact ⟨pieces ds, by simp [pieces_append_slash, hx], .inr (pieces_append_slash ds [])⟩
    · exact ⟨pieces cs, by rw [pieces_append_slash, hx], .inl rfl⟩

theorem filterMap_front {ps front : List (List Char)} (h : ps = front ∨ ps = front ++ [[]]) :
    ps.filterMap component? = front.filterMap component? := by
  rcases h with rfl | rfl
  · rfl
  · simp [component?]

theorem toList_joinAll {base : String} {names : List String} (hb : base ≠ "")
    (h : ∀ n ∈ names, IsName n) : (joinAll base names).toList = withNames base.toList names := by
  unfold withNames
  have hb' : base.toList ≠ [] := by simpa using hb
  cases names with
  | nil => rfl
  | cons n names =>
    rw [joinAll_eq_join hb (by simp) h,
      toList_join hb (not_absolute_ofSegments (h n (by simp))), toList_ofSegments, closed,
      if_neg (List.cons_ne_nil n names)]
    by_cases hs : base.toList.getLast? = some '/' <;> simp [hs, hb']

theorem mem_withNames {c : Char} {cs : List Char} {names : List String}
    (h : c ∈ withNames cs names) : c ∈ cs ∨ c = '/' ∨ ∃ n ∈ names, c ∈ n.toList := by
  have hrest : c ∈ unpieces (names.map String.toList) → c = '/' ∨ ∃ n ∈ names, c ∈ n.toList := by
    intro hc
    apply (mem_unpieces hc).imp_right
    rintro ⟨p, hp, hc⟩
    obtain ⟨n, hn, rfl⟩ := List.mem_map.1 hp
    exact ⟨n, hn, hc⟩
  unfold withNames at h
  split at h
  · exact .inl h
  · split at h
    · exact (List.mem_append.1 h).imp_right hrest
    · rcases List.mem_append.1 h with h | h
      · exact .inl h
      · rcases List.mem_cons.1 h with h | h
        · exact .inr (.inl h)
        · exact .inr (hrest h)

theorem withNames_append (front cs : List Char) (names : List String)
    (hcs : cs = [] → front.getLast? = some '/') :
    withNames (front ++ cs) names = front ++ withNames cs names := by
  unfold withNames
  by_cases hn : names = []
  · simp [hn]
  · cases cs with
    | nil => simp [hn, hcs rfl]
    | cons c cs =>
      have hlast : (front ++ c :: cs).getLast? = (c :: cs).getLast? := by
        rw [List.getLast?_append, List.getLast?_cons, Option.some_or]
      have hne : front ++ c :: cs ≠ [] := by simp
      rw [if_neg hn, if_neg hn, hlast]
      by_cases hs : (c :: cs).getLast? = some '/' <;> simp [hs, hne]

/-- A text whose first piece is a dot: the dot alone, or a slash and `more` behind it. -/
theorem eq_of_pieces_here {cs : List Char} {more : List (List Char)}
    (h : pieces cs = ['.'] :: more) :
    cs = ['.'] ∧ more = [] ∨ ∃ rest, cs = '.' :: '/' :: rest ∧ more = pieces rest := by
  have hcs : cs = unpieces (['.'] :: more) := by rw [← h, unpieces_pieces]
  cases more with
  | nil => exact .inl ⟨hcs, rfl⟩
  | cons p ps =>
    refine .inr ⟨unpieces (p :: ps), by rw [hcs]; rfl, ?_⟩
    refine (pieces_unpieces (by simp) fun q hq => ?_).symm
    have hmem : q ∈ pieces cs := h ▸ List.mem_cons_of_mem _ hq
    exact no_slash_of_mem_pieces hmem

theorem componentsOf_here {cs : List Char} {more : List (List Char)}
    (h : pieces cs = ['.'] :: more) : componentsOf cs = .here :: more.filterMap component? := by
  unfold componentsOf
  rcases eq_of_pieces_here h with ⟨he, rfl⟩ | ⟨rest, he, rfl⟩ <;> rw [he] at h ⊢ <;> simp [h]

theorem relativeTo?_absolute {base path : String} {cs rest : List Char}
    (hb : base.toList = '/' :: cs) (hp : path.toList = '/' :: rest) :
    relativeTo? base path =
      (dropComponents ((pieces cs).filterMap component?) (pieces rest)).map fun ps =>
        String.ofList (unpieces (trimPieces ps)) := by
  unfold relativeTo?
  rw [hb, hp]
  rfl

theorem relativeTo?_here {base path : String} {more rest : List (List Char)}
    (hb : pieces base.toList = ['.'] :: more) (hp : pieces path.toList = ['.'] :: rest) :
    relativeTo? base path =
      (dropComponents (more.filterMap component?) rest).map fun ps =>
        String.ofList (unpieces (trimPieces ps)) := by
  unfold relativeTo?
  rw [componentsOf_here hb]
  simp [hp]

theorem componentsOf_plain {cs : List Char} (hroot : cs.head? ≠ some '/')
    (hhere : (pieces cs).head? ≠ some ['.']) :
    componentsOf cs = (pieces cs).filterMap component? := by
  unfold componentsOf
  split
  · simp at hroot
  · split
    · next he => simp [he] at hhere
    · rfl

theorem relativeTo?_plain {base path : String} (hne : base ≠ "")
    (hb : base.toList.head? ≠ some '/') (hb' : (pieces base.toList).head? ≠ some ['.'])
    (hp : path.toList.head? ≠ some '/') (hp' : (pieces path.toList).head? ≠ some ['.']) :
    relativeTo? base path =
      (dropComponents ((pieces base.toList).filterMap component?) (pieces path.toList)).map
        fun ps => String.ofList (unpieces (trimPieces ps)) := by
  -- the first component of the base is a name or leads up
  obtain ⟨c, want, hc, hroot, hhere⟩ : ∃ c want, componentsOf base.toList = c :: want ∧
      c ≠ .root ∧ c ≠ .here := by
    have hcs : base.toList ≠ [] := by simpa using hne
    cases hcs' : base.toList with
    | nil => exact absurd hcs' hcs
    | cons x cs =>
      have hx : x ≠ '/' := by simpa [hcs'] using hb
      rw [hcs'] at hb hb'
      rw [componentsOf_plain hb hb']
      cases hps : pieces (x :: cs) with
      | nil => exact absurd hps (pieces_ne_nil _)
      | cons p ps =>
        have hpne : p ≠ [] := by
          rintro rfl
          have := unpieces_pieces (x :: cs)
          rw [hps] at this
          cases ps with
          | nil => simp [unpieces] at this
          | cons q qs =>
            rw [unpieces_cons (by simp)] at this
            exact hx (List.cons.inj this).1.symm
        have hpd : p ≠ ['.'] := by simpa [hps] using hb'
        by_cases hup : p = ['.', '.']
        · exact ⟨.up, ps.filterMap component?, by simp [component?, hup], by simp, by simp⟩
        · exact ⟨.name (String.ofList p), ps.filterMap component?,
            by simp [component?, hpne, hpd, hup], by simp, by simp⟩
  have hcomp := hc
  rw [componentsOf_plain hb hb'] at hcomp
  unfold relativeTo?
  rw [hc, hcomp]
  cases c with
  | root => exact absurd rfl hroot
  | here => exact absurd rfl hhere
  | up | name =>
    dsimp only
    split
    · next he => simp [he] at hp
    · next he _ => simp [he] at hp'
    · rfl

/-- The first character of a text stays when `names` are added. -/
theorem head?_withNames {cs : List Char} (hcs : cs ≠ []) (names : List String) :
    (withNames cs names).head? = cs.head? := by
  cases cs with
  | nil => exact absurd rfl hcs
  | cons c cs =>
    unfold withNames
    split
    · rfl
    · split <;> rfl

theorem head?_pieces_withNames {cs : List Char} (hcs : cs ≠ [])
    (hhere : (pieces cs).head? ≠ some ['.']) (names : List String) :
    (pieces (withNames cs names)).head? ≠ some ['.'] := by
  intro hdot
  obtain ⟨more, hmore⟩ := List.head?_eq_some_iff.1 hdot
  obtain ⟨back, hback⟩ : ∃ back, withNames cs names = cs ++ back := by
    unfold withNames
    split
    · exact ⟨[], by simp⟩
    · split <;> exact ⟨_, rfl⟩
  apply hhere
  rw [hback] at hmore
  cases cs with
  | nil => exact absurd rfl hcs
  | cons c cs =>
    rw [List.cons_append] at hmore
    rcases eq_of_pieces_here hmore with ⟨hall, -⟩ | ⟨rest, hall, -⟩
    · obtain ⟨rfl, hnil⟩ := List.cons.inj hall
      rw [(List.append_eq_nil_iff.1 hnil).1]
      rfl
    · obtain ⟨rfl, htail⟩ := List.cons.inj hall
      cases cs with
      | nil => rfl
      | cons d cs =>
        obtain ⟨rfl, -⟩ := List.cons.inj htail
        simp [pieces]

/-- **Relative to its `base` a path reads as the `names` that lead to it.** -/
theorem relativeTo?_joinAll {base : String} {names : List String} (hb : base ≠ "")
    (h : ∀ n ∈ names, IsName n) : relativeTo? base (joinAll base names) = some (ofSegments names) := by
  have hsolid := solid_names h
  have hpath := toList_joinAll hb h
  have hcs : base.toList ≠ [] := by simpa using hb
  by_cases hroot : base.toList.head? = some '/'
  · -- an absolute base: its first slash is the root on both sides
    obtain ⟨cs, hbase⟩ := List.head?_eq_some_iff.1 hroot
    obtain ⟨front, hf, hw⟩ := pieces_withNames cs h
    have hrest : (joinAll base names).toList = '/' :: withNames cs names := by
      rw [hpath, hbase]
      exact withNames_append ['/'] cs names fun _ => rfl
    rw [relativeTo?_absolute hbase hrest, hf]
    exact trim_dropComponents (filterMap_front hw) hsolid
  · by_cases hhere : (pieces base.toList).head? = some ['.']
    · -- a base that begins with a dot keeps it
      obtain ⟨more, hmore⟩ := List.head?_eq_some_iff.1 hhere
      rcases eq_of_pieces_here hmore with ⟨hbase, rfl⟩ | ⟨cs, hbase, rfl⟩
      · have hrest : pieces (joinAll base names).toList = ['.'] :: names.map String.toList := by
          have hnames := pieces_unpieces_names h
          rw [hpath, hbase]
          cases names with
          | nil => rfl
          | cons n names => exact congrArg (['.'] :: ·) (hnames (List.cons_ne_nil n names))
        rw [relativeTo?_here hmore hrest]
        exact trim_dropComponents (List.filterMap_nil).symm hsolid
      · obtain ⟨front, hf, hw⟩ := pieces_withNames cs h
        have hrest : pieces (joinAll base names).toList =
            ['.'] :: (front ++ names.map String.toList) := by
          rw [hpath, hbase, show '.' :: '/' :: cs = ['.', '/'] ++ cs by rfl,
            withNames_append _ _ _ fun _ => rfl, ← hf]
          rfl
        rw [relativeTo?_here hmore hrest]
        exact trim_dropComponents (filterMap_front hw) hsolid
    · obtain ⟨front, hf, hw⟩ := pieces_withNames base.toList h
      rw [← hpath] at hf
      have hp : (joinAll base names).toList.head? ≠ some '/' := by
        rw [hpath, head?_withNames hcs]
        exact hroot
      have hp' : (pieces (joinAll base names).toList).head? ≠ some ['.'] := by
        rw [hpath]
        exact head?_pieces_withNames hcs hhere names
      rw [relativeTo?_plain hb hroot hhere hp hp', hf]
      exact trim_dropComponents (filterMap_front hw) hsolid

/-! ## Components -/

theorem filterMap_names {names : List String} (h : ∀ n ∈ names, IsName n) :
    (names.map String.toList).filterMap Path.component? = names.map .name := by
  induction names with
  | nil => rfl
  | cons n names ih =>
    obtain ⟨hn, hnames⟩ := List.forall_mem_cons.1 h
    rw [List.map_cons, List.filterMap_cons_some hn.component?, ih hnames, List.map_cons]

theorem pieces_withNames_here {cs : List Char} {more : List (List Char)}
    (h : pieces cs = ['.'] :: more) (names : List String) :
    ∃ rest, pieces (withNames cs names) = ['.'] :: rest := by
  rcases eq_of_pieces_here h with ⟨rfl, rfl⟩ | ⟨rest, rfl, rfl⟩
  · cases names with
    | nil => exact ⟨[], rfl⟩
    | cons n names => exact ⟨_, rfl⟩
  · refine ⟨pieces (withNames rest names), ?_⟩
    rw [show '.' :: '/' :: rest = ['.', '/'] ++ rest by rfl, withNames_append _ _ _ fun _ => rfl]
    rfl

/-- **The `components` of a path** that names lead to from another one. -/
theorem components_joinAll {base : String} {names : List String} (hb : base ≠ "")
    (h : ∀ n ∈ names, IsName n) : components (joinAll base names) =
      components base ++ names.map .name := by
  have hcs : base.toList ≠ [] := by simpa using hb
  -- behind its beginning a text reads piece by piece
  have hpieces (cs : List Char) : (pieces (withNames cs names)).filterMap component? =
      (pieces cs).filterMap component? ++ names.map .name := by
    obtain ⟨front, hf, hw⟩ := pieces_withNames cs h
    rw [hf, List.filterMap_append, filterMap_names h, filterMap_front hw]
  unfold components
  rw [toList_joinAll hb h]
  by_cases hroot : base.toList.head? = some '/'
  · obtain ⟨cs, hbase⟩ := List.head?_eq_some_iff.1 hroot
    have hrest : withNames base.toList names = '/' :: withNames cs names := by
      rw [hbase]
      exact withNames_append ['/'] cs names fun _ => rfl
    rw [hrest, hbase, componentsOf, componentsOf, hpieces]
    rfl
  · by_cases hhere : (pieces base.toList).head? = some ['.']
    · obtain ⟨more, hmore⟩ := List.head?_eq_some_iff.1 hhere
      obtain ⟨rest, hrest⟩ := pieces_withNames_here hmore names
      have hall := hpieces base.toList
      rw [hrest, hmore, List.filterMap_cons_none rfl, List.filterMap_cons_none rfl] at hall
      rw [componentsOf_here hrest, componentsOf_here hmore, hall]
      rfl
    · rw [componentsOf_plain hroot hhere, ← hpieces]
      refine componentsOf_plain ?_ (head?_pieces_withNames hcs hhere names)
      rwa [head?_withNames hcs]

theorem components_joinAll_inj {base : String} {names names' : List String} (hb : base ≠ "")
    (h : ∀ n ∈ names, IsName n) (h' : ∀ n ∈ names', IsName n)
    (he : components (joinAll base names) = components (joinAll base names')) : names = names' := by
  rw [components_joinAll hb h, components_joinAll hb h', List.append_right_inj] at he
  exact (List.map_inj_right fun _ _ hc => Component.name.inj hc).1 he

/-! ## Paths of names -/

theorem prefix_dropLast_iff {dirs names : List String} (h : dirs ≠ []) :
    dirs <+: names.dropLast ↔ ∃ last, last ≠ [] ∧ names = dirs ++ last := by
  constructor
  · rintro ⟨more, hmore⟩
    have hne : names ≠ [] := by
      rintro rfl
      exact h (List.append_eq_nil_iff.1 hmore).1
    refine ⟨more ++ [names.getLast hne], by simp, ?_⟩
    rw [← List.append_assoc, hmore, List.dropLast_concat_getLast]
  · rintro ⟨last, hlast, rfl⟩
    rw [List.dropLast_append_of_ne_nil hlast]
    exact List.prefix_append _ _

theorem forwardSlashes_of_not_mem {path : String} (h : '\\' ∉ path.toList) :
    forwardSlashes path = path := by
  apply String.toList_injective
  unfold forwardSlashes
  have hid : ∀ c ∈ path.toList, (if c = '\\' then '/' else c) = id c := by
    intro c hc
    have hne : c ≠ '\\' := fun he => h (he ▸ hc)
    simp [hne]
  rw [String.toList_map, List.map_congr_left hid, List.map_id]

/-- With `names` that hold no backslash the relative path is these names. -/
theorem relativeUnix_joinAll {base : String} {names : List String} (hb : base ≠ "")
    (h : ∀ n ∈ names, IsName n) (hback : ∀ n ∈ names, '\\' ∉ n.toList) :
    relativeUnix base (joinAll base names) = ofSegments names := by
  rw [relativeUnix, relativeTo?_joinAll hb h, Option.getD_some]
  apply forwardSlashes_of_not_mem
  intro hc
  rw [toList_ofSegments] at hc
  rcases mem_unpieces hc with hc | ⟨p, hp, hc⟩
  · exact absurd hc (by decide)
  · obtain ⟨n, hn, rfl⟩ := List.mem_map.1 hp
    exact hback n hn hc

/-! ## How relative paths end -/

theorem dropComponents_suffix {want : List Component} {ps rest : List (List Char)}
    (h : dropComponents want ps = some rest) : rest <:+ ps := by
  induction ps generalizing want with
  | nil =>
    cases want with
    | nil =>
      rw [dropComponents] at h
      obtain rfl := Option.some.inj h
      exact List.suffix_rfl
    | cons w ws => simp [dropComponents] at h
  | cons p ps ih =>
    cases want with
    | nil =>
      rw [dropComponents] at h
      obtain rfl := Option.some.inj h
      exact List.suffix_rfl
    | cons w ws =>
      unfold dropComponents at h
      split at h
      · exact (ih h).trans (List.suffix_cons p ps)
      · split at h
        · exact (ih h).trans (List.suffix_cons p ps)
        · cases h

/-- The last of the pieces `ps` ends in the letter `d`. -/
def EndsIn (d : Char) (ps : List (List Char)) : Prop := ∃ front last, ps = front ++ [last ++ [d]]

variable {d : Char} {ps : List (List Char)}

theorem EndsIn.ne_nil (h : EndsIn d ps) : ps ≠ [] := by
  obtain ⟨front, last, rfl⟩ := h
  simp

theorem EndsIn.of_suffix (h : EndsIn d ps) {rest : List (List Char)} (hs : rest <:+ ps) :
    rest = [] ∨ EndsIn d rest := by
  obtain ⟨front, last, rfl⟩ := h
  rcases List.eq_nil_or_concat rest with rfl | ⟨rest, q, rfl⟩
  · exact .inl rfl
  · obtain ⟨more, hmore⟩ := hs
    rw [List.concat_eq_append, ← List.append_assoc] at hmore
    obtain ⟨-, hq⟩ := List.append_inj' hmore rfl
    exact .inr ⟨rest, last, by rw [List.concat_eq_append, hq]⟩

theorem EndsIn.getLast?_unpieces (h : EndsIn d ps) : (unpieces ps).getLast? = some d := by
  obtain ⟨front, last, rfl⟩ := h
  by_cases h : front = []
  · rw [h, List.nil_append, unpieces, List.getLast?_concat]
  · rw [unpieces_concat h, ← List.cons_append, ← List.append_assoc, List.getLast?_concat]

theorem endsIn_pieces {cs init : List Char} (hcs : cs = init ++ [d]) (hd : d ≠ '/') :
    EndsIn d (pieces cs) := by
  obtain ⟨front, last, hps⟩ := exists_pieces_concat cs
  have hends := congrArg List.getLast? (unpieces_pieces cs)
  rw [hps] at hends
  rcases List.eq_nil_or_concat last with rfl | ⟨last, x, rfl⟩
  · exfalso
    by_cases h : front = []
    · rw [h, hcs] at hends
      simp [unpieces] at hends
    · rw [unpieces_concat h, hcs, List.getLast?_append, List.getLast?_concat] at hends
      exact hd (by simpa using hends.symm)
  · have hx : EndsIn x (front ++ [last.concat x]) := ⟨front, last, by rw [List.concat_eq_append]⟩
    rw [hx.getLast?_unpieces, hcs, List.getLast?_concat] at hends
    obtain rfl : x = d := Option.some.inj hends
    exact hps ▸ hx

theorem component?_concat {init : List Char} (h : d ≠ '.') : component? (init ++ [d]) ≠ none := by
  have hdot : ∀ front : List Char, init ++ [d] ≠ front ++ ['.'] := by
    intro front he
    exact h (List.singleton_inj.1 (List.append_inj' he rfl).2)
  unfold component?
  rw [if_neg]
  · split <;> simp
  · rintro (he | he)
    · simp at he
    · exact hdot [] he

/-- A piece at the end that stands for something stays there when `trimEnd` drops the others. -/
theorem EndsIn.trimEnd (h : EndsIn d ps) (hdot : d ≠ '.') : EndsIn d (trimEnd ps) := by
  obtain ⟨front, last, rfl⟩ := h
  have hsome : (component? (last ++ [d])).isNone = false := by
    cases hc : component? (last ++ [d]) with
    | none => exact absurd hc (component?_concat hdot)
    | some c => rfl
  refine ⟨front, last, ?_⟩
  rw [Path.trimEnd, List.reverse_append, List.reverse_singleton, List.singleton_append,
    List.dropWhile_cons_of_neg (by simp [hsome]), List.reverse_cons, List.reverse_reverse]

theorem EndsIn.trimPieces (h : EndsIn d ps) (hdot : d ≠ '.') : EndsIn d (trimPieces ps) := by
  have hsuffix := List.dropWhile_suffix (l := ps) fun p => (component? p).isNone
  rcases h.of_suffix hsuffix with hnil | hends
  · -- the last piece would have been dropped
    obtain ⟨front, last, rfl⟩ := h
    have hall := List.all_takeWhile (p := fun p => (component? p).isNone)
      (l := front ++ [last ++ [d]])
    have htake := List.takeWhile_append_dropWhile (p := fun p => (component? p).isNone)
      (l := front ++ [last ++ [d]])
    rw [hnil, List.append_nil] at htake
    rw [htake] at hall
    have hlast := List.all_eq_true.1 hall (last ++ [d]) (by simp)
    exact absurd (Option.isNone_iff_eq_none.1 hlast) (component?_concat hdot)
  · exact hends.trimEnd hdot

theorem EndsIn.of_here (h : EndsIn d (['.'] :: ps)) (hdot : d ≠ '.') : EndsIn d ps := by
  obtain ⟨front, last, he⟩ := h
  cases front with
  | nil =>
    obtain ⟨hlast, -⟩ := List.cons.inj he
    have hd : [] ++ ['.'] = last ++ [d] := hlast
    obtain ⟨-, hd⟩ := List.append_inj' hd rfl
    exact absurd (List.singleton_inj.1 hd).symm hdot
  | cons p front =>
    rw [List.cons_append] at he
    exact ⟨front, last, (List.cons.inj he).2⟩

/-- What is left behind the components `want` of the base ends like the path. -/
theorem ends_of_dropComponents (h : EndsIn d ps) (hdot : d ≠ '.') {want : List Component}
    {text : String}
    (ht : (dropComponents want ps).map (fun ps => String.ofList (unpieces (trimPieces ps))) =
      some text) : text = "" ∨ text.toList.getLast? = some d := by
  obtain ⟨rest, hdrop, rfl⟩ := Option.map_eq_some_iff.1 ht
  rcases h.of_suffix (dropComponents_suffix hdrop) with rfl | hrest
  · exact .inl (by simp [trimPieces, trimEnd, unpieces])
  · exact .inr (by rw [String.toList_ofList, (hrest.trimPieces hdot).getLast?_unpieces])

theorem ends_of_relativeTo? {base path text : String} (h : relativeTo? base path = some text)
    {init : List Char} (hpath : path.toList = init ++ [d]) (hslash : d ≠ '/') (hdot : d ≠ '.') :
    text = "" ∨ text.toList.getLast? = some d := by
  have hends := endsIn_pieces hpath hslash
  -- behind a slash the path still ends in the letter
  have hrest : ∀ {rest}, path.toList = '/' :: rest → EndsIn d (pieces rest) := by
    intro rest he
    rw [hpath] at he
    cases init with
    | nil => exact absurd (List.cons.inj he).1 hslash
    | cons c init => exact endsIn_pieces (List.cons.inj he).2.symm hslash
  unfold relativeTo? at h
  split at h
  · next rest _ hp =>
    have hp' := (hrest hp).trimEnd hdot
    cases h
    refine .inr ?_
    rw [String.toList_ofList, List.getLast?_cons, hp'.getLast?_unpieces]
    rfl
  · split at h
    · next more hmore =>
      have htrim := ((hmore ▸ hends).of_here hdot).trimEnd hdot
      cases h
      refine .inr ?_
      rw [String.toList_ofList, unpieces_cons htrim.ne_nil, List.getLast?_append,
        List.getLast?_cons, htrim.getLast?_unpieces]
      rfl
    · cases h
      exact .inr (by rw [String.toList_ofList, (hends.trimEnd hdot).getLast?_unpieces])
  · next hp => exact ends_of_dropComponents (hrest hp) hdot h
  · split at h
    · next hmore => exact ends_of_dropComponents ((hmore ▸ hends).of_here hdot) hdot h
    · cases h
  · split at h
    · cases h
    · cases h
    · exact ends_of_dropComponents hends hdot h

/-- **A relative path ends like the path**, in the letter `d`, if something is left of it. -/
theorem getLast?_relativeUnix (base : String) {path : String} {init : List Char}
    (hpath : path.toList = init ++ [d]) (hslash : d ≠ '/') (hdot : d ≠ '.') (hback : d ≠ '\\') :
    relativeUnix base path = "" ∨ (relativeUnix base path).toList.getLast? = some d := by
  have htext : (relativeTo? base path).getD path = "" ∨
      ((relativeTo? base path).getD path).toList.getLast? = some d := by
    cases h : relativeTo? base path with
    | none => exact .inr (by rw [Option.getD_none, hpath, List.getLast?_concat])
    | some text => exact ends_of_relativeTo? h hpath hslash hdot
  rcases htext with htext | htext
  · exact .inl (by rw [relativeUnix, htext]; exact forwardSlashes_of_not_mem (by simp))
  · refine .inr ?_
    rw [relativeUnix, forwardSlashes, String.toList_map, List.getLast?_map, htext, Option.map_some,
      if_neg hback]

theorem no_backslash_forwardSlashes (path : String) : '\\' ∉ (forwardSlashes path).toList := by
  rw [forwardSlashes, String.toList_map]
  intro h
  obtain ⟨c, -, hc⟩ := List.mem_map.1 h
  split at hc
  · exact absurd hc (by decide)
  · next hne => exact hne hc

end FlowMigration.Path
