import FlowMigration.Glob

/-!
# Reading a pattern piece by piece

What a piece of a pattern does depends on its characters and on whether it stands in a group. What
has been read before it matters only for two stars.

* `Reads`: the piece that a pattern begins with; `exists_reads`: one of a pattern that can be read.
* `Reads.parse_eq`: reading goes on behind the piece.
* `exists_parse_of_length`: whether a pattern can be read depends on its text and on how many groups
  are open, and on nothing else that stands in front.
-/

namespace FlowMigration.Glob

/-- Where reading stands: the character in front, the groups that are open, and the branch as far
as it has been read. -/
structure Reader where
  before : Option Char := none
  open_ : List OpenGroup := []
  branch : Branch := {}

namespace Reader

def inGroup (r : Reader) : Bool := !r.open_.isEmpty

/-- Reads `cs` on, with every bracket for the beginning of a class. -/
def parse (r : Reader) (cs : List Char) : Except GlobError (List OpenGroup × Branch) :=
  parseFrom false true r.before r.open_ r.branch cs

end Reader

/-! ## Pieces -/

/-- What a piece of a pattern does. -/
inductive Move where
  | push (t : GlobToken)
  | stars
  | openGroup
  | closeGroup
  | nextBranch

/-- The piece that a pattern begins with: what it does (`Move`), its last character, and the text
behind it. A slash that two stars may take with them counts to the text behind. -/
inductive Reads (inGroup : Bool) : List Char → Move → Char → List Char → Prop where
  | anyByte (rest : List Char) : Reads inGroup ('?' :: rest) (.push .anyByte) '?' rest
  | stars (rest : List Char) : Reads inGroup ('*' :: '*' :: rest) .stars '*' rest
  | anyName {rest : List Char} (h : ∀ more, rest ≠ '*' :: more) :
    Reads inGroup ('*' :: rest) (.push .anyName) '*' rest
  | openGroup (rest : List Char) : Reads inGroup ('\x7b' :: rest) .openGroup '\x7b' rest
  | closeGroup (rest : List Char) (h : inGroup = true) :
    Reads inGroup ('\x7d' :: rest) .closeGroup '\x7d' rest
  | nextBranch (rest : List Char) (h : inGroup = true) :
    Reads inGroup (',' :: rest) .nextBranch ',' rest
  | comma (rest : List Char) (h : inGroup = false) :
    Reads inGroup (',' :: rest) (.push (.literal ',')) ',' rest
  | escaped (c : Char) (rest : List Char) :
    Reads inGroup ('\\' :: c :: rest) (.push (.literal c)) c rest
  | oneOf {rest more : List Char} {ranges : List (Char × Char)}
    (h : classRanges true false []
      (if rest.head? = some '!' ∨ rest.head? = some '^' then rest.tail else rest) =
        .ok (some (ranges, more))) :
    Reads inGroup ('[' :: rest)
      (.push (.oneOf (rest.head? = some '!' ∨ rest.head? = some '^') ranges.reverse)) ']' more
  | literal {c : Char} (rest : List Char) (h : c ∉ ['?', '*', '\x7b', '\x7d', ',', '\\', '[']) :
    Reads inGroup (c :: rest) (.push (.literal c)) c rest

/-- Where reading stands after a piece that does `m`, and what it goes on with. -/
def Reader.move (r : Reader) (m : Move) (last : Char) (rest : List Char) : Reader × List Char :=
  match m, r.open_ with
  | .push t, _ => (⟨some last, r.open_, r.branch.push t⟩, rest)
  | .stars, _ =>
    let (b, more, c) := doubleStar r.inGroup r.before r.branch rest
    (⟨some c, r.open_, b⟩, more)
  | .openGroup, _ => (⟨some last, ⟨r.branch, []⟩ :: r.open_, {}⟩, rest)
  | .closeGroup, group :: outside =>
    (⟨some last, outside,
      group.outer.pushGroup (groupChoices (group.closed.reverse ++ [r.branch]))⟩, rest)
  | .nextBranch, group :: outside =>
    (⟨some last, { group with closed := r.branch :: group.closed } :: outside, {}⟩, rest)
  | _, [] => (⟨some last, [], r.branch⟩, rest)

variable {r r' : Reader} {m : Move} {last : Char} {cs rest : List Char}

/-- **Reading goes on** behind a piece that the pattern `Reads`. -/
theorem Reads.parse_eq (h : Reads r.inGroup cs m last rest) :
    r.parse cs = (r.move m last rest).1.parse (r.move m last rest).2 := by
  obtain ⟨before, open_, b⟩ := r
  unfold Reader.parse
  cases h with
  | anyByte => rw [parseFrom.eq_2]; rfl
  | stars => rw [parseFrom.eq_3]; rfl
  | anyName h => rw [parseFrom.eq_4 _ _ _ _ _ _ h]; rfl
  | openGroup => rw [parseFrom.eq_5]; rfl
  | closeGroup _ h =>
    cases open_ with
    | nil => cases h
    | cons group open_ => rw [parseFrom.eq_7]; rfl
  | nextBranch _ h =>
    cases open_ with
    | nil => cases h
    | cons group open_ => rw [parseFrom.eq_9]; rfl
  | comma _ h =>
    cases open_ with
    | nil => rw [parseFrom.eq_8]; rfl
    | cons group open_ => cases h
  | escaped => rw [parseFrom.eq_11]; rfl
  | oneOf h =>
    rw [parseFrom.eq_12, if_pos rfl]
    dsimp only
    split
    · next he =>
      rw [h] at he
      cases he
    · next he =>
      rw [h] at he
      cases he
    · next he =>
      rw [h] at he
      cases he
      rfl
  | literal _ h =>
    simp only [List.mem_cons, List.not_mem_nil, or_false, not_or] at h
    obtain ⟨h1, h2, h3, h4, h5, h6, h7⟩ := h
    rw [parseFrom.eq_13 _ _ _ _ _ _ _ h1 (fun _ he => absurd he h2) h2 h3 h4 h5 h6 h7]
    rfl

/-- **A pattern that `parse` can read** begins with a piece. -/
theorem exists_reads {c : Char} {found : List OpenGroup × Branch}
    (h : r.parse (c :: cs) = .ok found) :
    ∃ m last rest, Reads r.inGroup (c :: cs) m last rest := by
  obtain ⟨before, open_, b⟩ := r
  unfold Reader.parse at h
  by_cases hspecial : c ∉ ['?', '*', '\x7b', '\x7d', ',', '\\', '[']
  · exact ⟨_, _, _, .literal cs hspecial⟩
  rw [Decidable.not_not] at hspecial
  simp only [List.mem_cons, List.not_mem_nil, or_false] at hspecial
  obtain rfl | rfl | rfl | rfl | rfl | rfl | rfl := hspecial
  · exact ⟨_, _, _, .anyByte cs⟩
  · by_cases hstar : ∃ more, cs = '*' :: more
    · obtain ⟨more, rfl⟩ := hstar
      exact ⟨_, _, _, .stars more⟩
    · exact ⟨_, _, _, .anyName fun more he => hstar ⟨more, he⟩⟩
  · exact ⟨_, _, _, .openGroup cs⟩
  · cases open_ with
    | nil => rw [parseFrom.eq_6] at h; cases h
    | cons => exact ⟨_, _, _, .closeGroup cs rfl⟩
  · cases open_ with
    | nil => exact ⟨_, _, _, .comma cs rfl⟩
    | cons => exact ⟨_, _, _, .nextBranch cs rfl⟩
  · cases cs with
    | nil => rw [parseFrom.eq_10] at h; cases h
    | cons c cs => exact ⟨_, _, _, .escaped c cs⟩
  · rw [parseFrom.eq_12, if_pos rfl] at h
    dsimp only at h
    split at h
    · cases h
    · cases h
    · next hclass => exact ⟨_, _, _, .oneOf hclass⟩

/-! ## What is left -/

theorem classRanges_suffix {first dashed : Bool} {ranges found : List (Char × Char)}
    (h : classRanges first dashed ranges cs = .ok (some (found, rest))) : ']' :: rest <:+ cs := by
  induction cs generalizing first dashed ranges with
  | nil => cases h
  | cons c cs ih =>
    have hstep : ∀ {first dashed ranges}, classRanges first dashed ranges cs =
        .ok (some (found, rest)) → ']' :: rest <:+ c :: cs :=
      fun h => (ih h).trans (List.suffix_cons c cs)
    unfold classRanges at h
    split at h
    · next hend =>
      simp only [Except.ok.injEq, Option.some.injEq, Prod.mk.injEq] at h
      obtain ⟨-, rfl⟩ := h
      obtain rfl := hend.1
      exact List.suffix_rfl
    · split at h
      · split at h
        · split at h
          · cases h
          · exact hstep h
        · exact hstep h
      · split at h
        · exact hstep h
        · exact hstep h

theorem Reads.suffix {inGroup : Bool} (h : Reads inGroup cs m last rest) : last :: rest <:+ cs := by
  cases h with
  | stars | escaped => exact List.suffix_cons _ _
  | oneOf h =>
    refine (classRanges_suffix h).trans (List.IsSuffix.trans ?_ (List.suffix_cons _ _))
    split
    · exact List.tail_suffix _
    · exact List.suffix_rfl
  | anyByte | anyName | openGroup | closeGroup | nextBranch | comma | literal =>
    exact List.suffix_rfl

/-- Two stars take at most a slash off `rest` with them. -/
theorem doubleStar_left (inGroup : Bool) (before : Option Char) (b : Branch) (rest : List Char) :
    (doubleStar inGroup before b rest).2 = (rest, '*') ∨
      ∃ more, rest = '/' :: more ∧ (doubleStar inGroup before b rest).2 = (more, '/') := by
  unfold doubleStar
  grind

theorem doubleStar_suffix (inGroup : Bool) (before : Option Char) (b : Branch) (rest : List Char) :
    (doubleStar inGroup before b rest).2.2 :: (doubleStar inGroup before b rest).2.1 <:+
      '*' :: rest := by
  rcases doubleStar_left inGroup before b rest with he | ⟨more, rfl, he⟩
  · exact he ▸ List.suffix_rfl
  · exact he ▸ List.suffix_cons '*' ('/' :: more)

theorem Reads.move_suffix {inGroup : Bool} (h : Reads inGroup cs m last rest) (r : Reader) :
    ∃ y, (r.move m last rest).1.before = some y ∧ y :: (r.move m last rest).2 <:+ cs := by
  have hsuffix := h.suffix
  obtain ⟨before, open_, b⟩ := r
  cases m with
  | stars =>
    cases h
    exact ⟨_, rfl, (doubleStar_suffix _ before b rest).trans hsuffix⟩
  | push | openGroup => exact ⟨last, rfl, hsuffix⟩
  | closeGroup | nextBranch => cases open_ <;> exact ⟨last, rfl, hsuffix⟩

theorem Reads.move_length {inGroup : Bool} (h : Reads inGroup cs m last rest) (r : Reader) :
    (r.move m last rest).2.length < cs.length := by
  obtain ⟨y, -, hs⟩ := h.move_suffix r
  have hlen := hs.length_le
  simp only [List.length_cons] at hlen
  omega

/-! ## What can be read -/

/-- A text without the slash that two stars in front of it may take. -/
def afterSlash : List Char → List Char
  | '/' :: more => more
  | rest => rest

theorem length_afterSlash (rest : List Char) : (afterSlash rest).length ≤ rest.length := by
  unfold afterSlash
  split
  · exact Nat.le_succ _
  · exact Nat.le_refl _

theorem exists_parse_afterSlash (r : Reader) (rest : List Char) :
    ∃ e : Reader, e.open_ = r.open_ ∧ r.parse rest = e.parse (afterSlash rest) := by
  unfold afterSlash
  split
  · next more =>
    have hslash : Reads r.inGroup ('/' :: more) (.push (.literal '/')) '/' more :=
      .literal more (by decide)
    exact ⟨(r.move (.push (.literal '/')) '/' more).1, rfl, hslash.parse_eq⟩
  · exact ⟨r, rfl, rfl⟩

/-- Two stars go on with what is behind the next slash (`afterSlash`), whether they take it or
not. -/
theorem exists_parse_stars (r : Reader) (rest : List Char) :
    ∃ e : Reader, e.open_ = r.open_ ∧ r.parse ('*' :: '*' :: rest) = e.parse (afterSlash rest) := by
  have hleft : (r.move .stars '*' rest).2 = (doubleStar r.inGroup r.before r.branch rest).2.1 := rfl
  rw [(Reads.stars rest).parse_eq, hleft]
  rcases doubleStar_left r.inGroup r.before r.branch rest with he | ⟨more, rfl, he⟩
  · rw [he]
    exact exists_parse_afterSlash (r.move .stars '*' rest).1 rest
  · rw [he]
    exact ⟨(r.move .stars '*' ('/' :: more)).1, rfl, rfl⟩

theorem Reader.move_left (h : m ≠ .stars) (r : Reader) (last : Char) (rest : List Char) :
    (r.move m last rest).2 = rest := by
  obtain ⟨before, open_, b⟩ := r
  cases m with
  | stars => exact absurd rfl h
  | push | openGroup => rfl
  | closeGroup | nextBranch => cases open_ <;> rfl

/-- Pieces open and close groups alike in `r` and `r'`, whatever stands in them. -/
theorem Reader.length_move (hlen : r'.open_.length = r.open_.length) (m : Move) (last : Char)
    (rest : List Char) :
    (r'.move m last rest).1.open_.length = (r.move m last rest).1.open_.length := by
  obtain ⟨before, open_, b⟩ := r
  obtain ⟨before', open', b'⟩ := r'
  cases m with
  | push | stars => exact hlen
  | openGroup => exact congrArg (· + 1) hlen
  | closeGroup | nextBranch =>
    cases open_ with
    | nil =>
      obtain rfl := List.length_eq_zero_iff.1 hlen
      rfl
    | cons group open_ =>
      obtain ⟨group', open', rfl⟩ := List.exists_cons_of_length_eq_add_one hlen
      simpa [Reader.move] using hlen

theorem Reader.inGroup_of_length (hlen : r'.open_.length = r.open_.length) :
    r'.inGroup = r.inGroup := by
  rw [inGroup, inGroup, Bool.eq_iff_iff]
  simp only [Bool.not_eq_true', ← Bool.not_eq_true, List.isEmpty_iff_length_eq_zero, hlen]

/-- **Whether a pattern `cs` can be read** depends on the number of open groups alone. -/
theorem exists_parse_of_length (hlen : r'.open_.length = r.open_.length)
    {found : List OpenGroup × Branch} (h : r.parse cs = .ok found) :
    ∃ found', r'.parse cs = .ok found' ∧ found'.1.length = found.1.length := by
  induction hn : cs.length using Nat.strongRecOn generalizing cs r r' with
  | _ n ih =>
    subst hn
    cases cs with
    | nil =>
      rw [Reader.parse, parseFrom.eq_1] at h ⊢
      cases h
      exact ⟨_, rfl, hlen⟩
    | cons c cs =>
      obtain ⟨m, last, rest, hreads⟩ := exists_reads h
      have hreads' : Reads r'.inGroup (c :: cs) m last rest := by
        rwa [Reader.inGroup_of_length hlen]
      by_cases hstars : m = .stars
      · subst hstars
        cases hreads with
        | stars rest =>
          obtain ⟨e, hopen, he⟩ := exists_parse_stars r rest
          obtain ⟨e', hopen', he'⟩ := exists_parse_stars r' rest
          rw [he] at h
          rw [he']
          refine ih _ ?_ (by rw [hopen, hopen', hlen]) h rfl
          have := length_afterSlash rest
          simp only [List.length_cons]
          omega
      · have hleft := fun e => Reader.move_left hstars e last rest
        rw [hreads.parse_eq, hleft] at h
        rw [hreads'.parse_eq, hleft]
        exact ih _ (hleft r ▸ hreads.move_length r) (Reader.length_move hlen m last rest) h rfl

end FlowMigration.Glob
