import FlowMigration.Proofs.Glob.Reading

/-!
# How matched paths end

A pattern that ends in a group of literal endings matches only paths with one of them.

* `matchTokens_append`: what matches a front and more tokens has an ending that matches the latter.
* `parseFrom_append`: reading a pattern without escapes comes to what stands at its end, whatever
  stands in front of it.
* `getLast?_of_bytes`: the last character of a text from its last bytes.
-/

namespace FlowMigration.Glob

/-! ## Matching -/

theorem suffix_of_dropFront {front path rest : List UInt8} (h : dropFront front path = some rest) :
    path = front ++ rest := by
  induction front generalizing path with
  | nil => simpa [dropFront] using h
  | cons f front ih =>
    cases path with
    | nil => simp [dropFront] at h
    | cons b path =>
      unfold dropFront at h
      split at h
      · next hf => rw [hf, ih h, List.cons_append]
      · cases h

theorem suffix_of_mem_afterName {path rest : List UInt8} (h : rest ∈ afterName path) :
    rest <:+ path := by
  induction path with
  | nil => simp_all [afterName]
  | cons b path ih =>
    unfold afterName at h
    split at h
    · obtain rfl := List.mem_singleton.1 h
      exact List.suffix_rfl
    · rcases List.mem_cons.1 h with rfl | h
      · exact List.suffix_rfl
      · exact (ih h).trans (List.suffix_cons b path)

theorem suffix_of_mem_afterSlashes {path rest : List UInt8} (h : rest ∈ afterSlashes path) :
    rest <:+ path := by
  induction path with
  | nil => simp [afterSlashes] at h
  | cons b path ih =>
    unfold afterSlashes at h
    split at h
    · rcases List.mem_cons.1 h with rfl | h
      · exact List.suffix_cons b _
      · exact (ih h).trans (List.suffix_cons b path)
    · exact (ih h).trans (List.suffix_cons b path)

theorem suffix_of_mem_endings {path rest : List UInt8} (h : rest ∈ endings path) :
    rest <:+ path := by
  induction path with
  | nil => simp_all [endings]
  | cons b path ih =>
    unfold endings at h
    rcases List.mem_cons.1 h with rfl | h
    · exact List.suffix_rfl
    · exact (ih h).trans (List.suffix_cons b path)

theorem matchTokens_cons {t : GlobToken} {ts : List GlobToken} {path : List UInt8}
    (h : matchTokens (t :: ts) path = true) : ∃ rest, rest <:+ path ∧ matchTokens ts rest = true := by
  cases t with
  | literal c =>
    unfold matchTokens at h
    split at h
    · next rest hr => exact ⟨rest, ⟨_, (suffix_of_dropFront hr).symm⟩, h⟩
    · cases h
  | anyByte =>
    cases path with
    | nil => simp [matchTokens] at h
    | cons b rest =>
      simp only [matchTokens, Bool.and_eq_true] at h
      exact ⟨rest, List.suffix_cons b rest, h.2⟩
  | anyName =>
    obtain ⟨rest, hr, hm⟩ := List.any_eq_true.1 h
    exact ⟨rest, suffix_of_mem_afterName hr, hm⟩
  | leadingDirs =>
    rcases Bool.or_eq_true_iff.1 h with h | h
    · exact ⟨path, List.suffix_rfl, h⟩
    · obtain ⟨rest, hr, hm⟩ := List.any_eq_true.1 h
      exact ⟨rest, suffix_of_mem_afterSlashes hr, hm⟩
  | trailing =>
    cases path with
    | nil => simp [matchTokens] at h
    | cons b rest =>
      simp only [matchTokens, Bool.and_eq_true] at h
      obtain ⟨rest', hr, hm⟩ := List.any_eq_true.1 h.2
      exact ⟨rest', (suffix_of_mem_endings hr).trans (List.suffix_cons b rest), hm⟩
  | innerDirs =>
    cases path with
    | nil => simp [matchTokens] at h
    | cons b rest =>
      simp only [matchTokens, Bool.and_eq_true, Bool.or_eq_true] at h
      rcases h.2 with h | h
      · exact ⟨rest, List.suffix_cons b rest, h⟩
      · obtain ⟨rest', hr, hm⟩ := List.any_eq_true.1 h
        exact ⟨rest', (suffix_of_mem_afterSlashes hr).trans (List.suffix_cons b rest), hm⟩
  | everything =>
    obtain ⟨rest, hr, hm⟩ := List.any_eq_true.1 h
    exact ⟨rest, suffix_of_mem_endings hr, hm⟩
  | oneOf negated ranges =>
    cases path with
    | nil => simp [matchTokens] at h
    | cons b rest =>
      simp only [matchTokens, Bool.and_eq_true] at h
      exact ⟨rest, List.suffix_cons b rest, h.2⟩

/-- **What `front` and more tokens match** has an ending that the latter match. -/
theorem matchTokens_append {front ts : List GlobToken} {path : List UInt8}
    (h : matchTokens (front ++ ts) path = true) :
    ∃ rest, rest <:+ path ∧ matchTokens ts rest = true := by
  induction front generalizing path with
  | nil => exact ⟨path, List.suffix_rfl, h⟩
  | cons t front ih =>
    obtain ⟨rest, hr, hm⟩ := matchTokens_cons h
    obtain ⟨rest', hr', hm'⟩ := ih hm
    exact ⟨rest', hr'.trans hr, hm'⟩

theorem suffix_of_matches_literal {front : List GlobToken} {c : Char} {path : List UInt8}
    (h : matchTokens (front ++ [.literal c]) path = true) : bytes c.toString <:+ path := by
  obtain ⟨rest, hr, hm⟩ := matchTokens_append h
  unfold matchTokens at hm
  split at hm
  · next rest' hd =>
    have hnil : rest' = [] := by simpa [matchTokens] using hm
    rw [suffix_of_dropFront hd, hnil, List.append_nil] at hr
    exact hr
  · cases hm

/-! ## Reading -/

/-- A class is closed by a bracket of its own, not by one in a `tail` that has none. -/
theorem classRanges_append {first dashed : Bool} {ranges found : List (Char × Char)}
    {cs tail rest : List Char} (htail : ']' ∉ tail)
    (h : classRanges first dashed ranges (cs ++ tail) = .ok (some (found, rest))) :
    ∃ more, rest = more ++ tail ∧ more <:+ cs ∧ more.length < cs.length := by
  have hends := classRanges_suffix h
  rcases List.suffix_or_suffix_of_suffix hends (List.suffix_append cs tail) with hin | ⟨front, he⟩
  · exact absurd (hin.mem List.mem_cons_self) htail
  · cases front with
    | nil =>
      rw [List.nil_append] at he
      exact absurd (he ▸ List.mem_cons_self) htail
    | cons c more =>
      rw [← he, List.suffix_append_inj_of_length_eq rfl] at hends
      obtain ⟨rfl, rfl⟩ := List.cons.inj he
      exact ⟨more, rfl, (List.suffix_cons _ more).trans hends.1, hends.1.length_le⟩

/-- How much reading takes of a pattern that begins with `c`: that character, two stars and maybe a
slash, or a whole class. -/
def Takes (c : Char) (rest more : List Char) : Prop :=
  more = rest ∨ (c = '*' ∧ (rest = '*' :: more ∨ rest = '*' :: '/' :: more)) ∨
    ∃ negation found, rest = negation ++ rest.drop negation.length ∧
      (∀ d ∈ negation, d = '!' ∨ d = '^') ∧
      classRanges true false [] (rest.drop negation.length) = .ok (some (found, more))

theorem Reads.takes {inGroup : Bool} {m : Move} {last c : Char} {rest left : List Char}
    (h : Reads inGroup (c :: rest) m last left) (hc : c ≠ '\\') (r : Reader) :
    Takes c rest (r.move m last left).2 := by
  obtain ⟨before, open_, b⟩ := r
  cases h with
  | anyByte | anyName | openGroup | comma | literal => exact .inl rfl
  | closeGroup | nextBranch => cases open_ <;> exact .inl rfl
  | escaped => exact absurd rfl hc
  | stars =>
    refine .inr (.inl ⟨rfl, ?_⟩)
    rcases doubleStar_left (!open_.isEmpty) before b left with he | ⟨more, rfl, he⟩
    · exact .inl (congrArg (fun left => '*' :: left.1) he.symm)
    · exact .inr (congrArg (fun left => '*' :: '/' :: left.1) he.symm)
  | oneOf hclass =>
    refine .inr (.inr ?_)
    split at hclass
    · next hneg =>
      cases rest with
      | nil => simp at hneg
      | cons d rest => exact ⟨[d], _, rfl, by simpa using hneg, hclass⟩
    · exact ⟨[], _, rfl, by simp, hclass⟩

/-- **One step of `parseFrom`** on a pattern whose brackets all count. -/
theorem parseFrom_step {before : Option Char} {open_ : List OpenGroup} {b : Branch} {c : Char}
    {rest : List Char} (hc : c ≠ '\\') {r : List OpenGroup × Branch}
    (h : parseFrom false true before open_ b (c :: rest) = .ok r) :
    ∃ before' open' b' more, parseFrom false true before' open' b' more = .ok r ∧
      Takes c rest more := by
  obtain ⟨m, last, left, hreads⟩ := exists_reads (r := ⟨before, open_, b⟩) h
  exact ⟨_, _, _, _, hreads.parse_eq.symm.trans h, hreads.takes hc _⟩

/-- A text `tail` that is read for itself behind any other one: nothing in front takes a part of
it. -/
structure Separate (tail : List Char) : Prop where
  no_bracket : ']' ∉ tail
  head : ∃ c rest, tail = c :: rest ∧ c ≠ '*' ∧ c ≠ '/' ∧ c ≠ '!' ∧ c ≠ '^'

/-- What is taken in front of a `Separate` text is taken from what stands in front. -/
theorem Takes.of_separate {tail : List Char} (htail : Separate tail) {c : Char}
    {cs more : List Char} (h : Takes c (cs ++ tail) more) :
    ∃ rest, more = rest ++ tail ∧ rest <:+ cs := by
  obtain ⟨x, xs, rfl, hstar, hslash, hbang, hhat⟩ := htail.head
  rcases h with rfl | ⟨rfl, hs | hs⟩ | ⟨negation, found, hsplit, hneg, hclass⟩
  · exact ⟨cs, rfl, List.suffix_rfl⟩
  · cases cs with
    | nil => exact absurd (List.cons.inj hs).1 hstar
    | cons d cs => exact ⟨cs, (List.cons.inj hs).2.symm, List.suffix_cons d cs⟩
  · cases cs with
    | nil => exact absurd (List.cons.inj hs).1 hstar
    | cons d cs =>
      cases cs with
      | nil => exact absurd (List.cons.inj (List.cons.inj hs).2).1 hslash
      | cons e cs =>
        exact ⟨cs, (List.cons.inj (List.cons.inj hs).2).2.symm,
          (List.suffix_cons e cs).trans (List.suffix_cons d _)⟩
  · obtain ⟨inner, hinner, hsuffix⟩ : ∃ inner, (cs ++ x :: xs).drop negation.length =
        inner ++ x :: xs ∧ inner <:+ cs := by
      refine ⟨cs.drop negation.length, ?_, List.drop_suffix _ _⟩
      -- the negation does not reach the separate text
      refine List.drop_append_of_le_length (Nat.le_of_not_lt ?_)
      intro hlen
      have hmem : x ∈ negation := by
        have hget : (cs ++ x :: xs)[cs.length]? = some x := by simp
        rw [hsplit, List.getElem?_append_left (by omega)] at hget
        exact List.mem_of_getElem? hget
      rcases hneg x hmem with rfl | rfl
      · exact hbang rfl
      · exact hhat rfl
    rw [hinner] at hclass
    obtain ⟨rest, hrest, hs, -⟩ := classRanges_append htail.no_bracket hclass
    exact ⟨rest, hrest, hs.trans hsuffix⟩

/-- **Reading comes to a `Separate` text** at the end of a pattern without escapes. -/
theorem parseFrom_append {tail : List Char} (htail : Separate tail) {before : Option Char}
    {open_ : List OpenGroup} {b : Branch} {cs : List Char} (hcs : '\\' ∉ cs)
    {r : List OpenGroup × Branch} (h : parseFrom false true before open_ b (cs ++ tail) = .ok r) :
    ∃ before' open' b', parseFrom false true before' open' b' tail = .ok r := by
  induction hn : cs.length using Nat.strongRecOn generalizing cs before open_ b with
  | _ n ih =>
    subst hn
    cases cs with
    | nil => exact ⟨before, open_, b, h⟩
    | cons c cs =>
      have hc : c ≠ '\\' := by
        rintro rfl
        exact hcs List.mem_cons_self
      obtain ⟨before', open', b', more, h', htakes⟩ := parseFrom_step hc h
      obtain ⟨rest, rfl, hs⟩ := htakes.of_separate htail
      exact ih rest.length (Nat.lt_succ_of_le hs.length_le)
        (fun hm => hcs (List.mem_cons_of_mem _ (hs.mem hm))) h' rfl

/-! ## Bytes and characters -/

theorem toList_loop (bs : ByteArray) (i : Nat) (r : List UInt8) :
    ByteArray.toList.loop bs i r = r.reverse ++ bs.data.toList.drop i := by
  fun_induction ByteArray.toList.loop bs i r with
  | case1 i r h ih =>
    have hi : i < bs.data.toList.length := by simpa using h
    have hget : bs.get! i = bs.data.toList[i] := by
      obtain ⟨data⟩ := bs
      rw [Array.getElem_toList]
      exact getElem!_pos data i h
    rw [ih, List.reverse_cons, List.append_assoc, List.drop_eq_getElem_cons hi, hget,
      List.singleton_append]
  | case2 i r h =>
    rw [List.drop_of_length_le (by simpa using h), List.append_nil]

theorem bytes_eq (text : String) : bytes text = text.toList.flatMap String.utf8EncodeChar := by
  have h : text.toUTF8 = text.toList.utf8Encode := String.utf8Encode_toList.symm
  rw [bytes, ByteArray.toList, toList_loop, h, List.utf8Encode, List.toList_data_toByteArray]
  rfl

/-- **The end of a `text`**: it ends in no character whose last byte is another one than that of its
ending. -/
theorem getLast?_of_bytes {text : String} {c d : Char} (h : bytes c.toString <:+ bytes text)
    (hd : (bytes d.toString).getLast? ≠ (bytes c.toString).getLast?) :
    text ≠ "" ∧ text.toList.getLast? ≠ some d := by
  have hone : ∀ x : Char, bytes x.toString = String.utf8EncodeChar x := by
    intro x
    simp [bytes_eq]
  have hpos : ∀ x : Char, String.utf8EncodeChar x ≠ [] := by
    intro x hx
    have hlen := String.length_utf8EncodeChar x
    rw [hx] at hlen
    exact absurd hlen (Nat.ne_of_lt x.utf8Size_pos)
  rw [hone, hone] at hd
  rw [hone, bytes_eq] at h
  obtain ⟨front, hfront⟩ := h
  constructor
  · rintro rfl
    simp at hfront
  · intro hlast
    obtain ⟨rest, hrest⟩ := List.getLast?_eq_some_iff.1 hlast
    rw [hrest, List.flatMap_append, List.flatMap_singleton] at hfront
    have hends := congrArg List.getLast? hfront
    rw [List.getLast?_append, List.getLast?_append, List.getLast?_eq_some_getLast (hpos c),
      List.getLast?_eq_some_getLast (hpos d), Option.some_or, Option.some_or] at hends
    rw [List.getLast?_eq_some_getLast (hpos c), List.getLast?_eq_some_getLast (hpos d)] at hd
    exact hd hends.symm

end FlowMigration.Glob
