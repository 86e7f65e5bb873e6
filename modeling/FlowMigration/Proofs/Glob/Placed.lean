import Mathlib.Data.List.Forall2
import FlowMigration.Proofs.Glob.Plain

/-!
# Patterns behind a directory

What a pattern takes of the paths below a directory, when it is written behind that directory. Both
are read side by side: what has been read before a piece differs, the pieces are the same.

* `Carries`: tokens that take behind a directory what others take by themselves.
* `Near`: readers that stand at the same place of a pattern, the second behind a directory;
  `Near.move` is one piece, `Near.exists_parse` a whole pattern.
* `accepted_behind`: a text that can be read can be read behind a directory.
* `exists_parse_below`: a pattern behind a directory takes there what it takes by itself;
  `exists_parse_name`: one that may stand below any directory still does so of single names.
-/

namespace FlowMigration.Glob

/-! ## Tokens -/

/-- The directory `dir` in a pattern. -/
def dirTokens (dir : String) : List GlobToken := dir.toList.map .literal

theorem matchTokens_dirTokens (dir : String) (ts : List GlobToken) (path : List UInt8) :
    matchTokens (dirTokens dir ++ ts) (bytes dir ++ path) = matchTokens ts path := by
  rw [Bool.eq_iff_iff, dirTokens, matchTokens_literals]
  constructor
  · rintro ⟨rest, he, hm⟩
    rwa [List.append_cancel_left he]
  · exact fun hm => ⟨path, rfl, hm⟩

theorem matchTokens_slash (ts : List GlobToken) (path : List UInt8) :
    matchTokens (.literal '/' :: ts) (slash :: path) = matchTokens ts path := by
  have hbytes : bytes "/" = [slash] := by
    rw [bytes_eq]
    decide
  have h := matchTokens_dirTokens "/" ts path
  rwa [hbytes] at h

section
variable (dir : String) (S : List UInt8 → Prop)

/-- Tokens that take behind a directory what others take of the paths in `S`, whatever comes next.
-/
def Carries (ts ts' : List GlobToken) : Prop :=
  ∀ more path, S path →
    matchTokens (ts' ++ more) (bytes dir ++ slash :: path) = matchTokens (ts ++ more) path

variable {dir S}

theorem Carries.append {ts ts' : List GlobToken} (h : Carries dir S ts ts') (us : List GlobToken) :
    Carries dir S (ts ++ us) (ts' ++ us) := fun more path hpath => by
  rw [List.append_assoc, List.append_assoc, h (us ++ more) path hpath]

theorem carries_slash : Carries dir S [] (dirTokens dir ++ [.literal '/']) :=
  fun more path _ => by
    rw [List.append_assoc, List.singleton_append, matchTokens_dirTokens, matchTokens_slash,
      List.nil_append]

theorem carries_dirs : Carries dir S [.leadingDirs] (dirTokens dir ++ [.innerDirs]) :=
  fun more path _ => by
    rw [List.append_assoc, List.singleton_append, matchTokens_dirTokens, Bool.eq_iff_iff,
      matchTokens_innerDirs]
    constructor
    · rintro ⟨rest, he, hm⟩
      rwa [(List.cons.inj he).2]
    · exact fun hm => ⟨path, rfl, hm⟩

/-- In front of a single name there are no directories: `dir` and a slash carry what `.leadingDirs`
does. -/
theorem carries_name (h : ∀ path, S path → slash ∉ path) :
    Carries dir S [.leadingDirs] (dirTokens dir ++ [.literal '/']) := fun more path hpath => by
  rw [carries_slash more path hpath, List.singleton_append, matchTokens,
    afterSlashes_of_not_mem (h path hpath), List.any_nil, Bool.or_false, List.nil_append]

/-! ## Branches -/

variable (dir S) in
/-- Branches that end in the same tokens `tail`, the latest first, and carry what stands in front of
them. -/
inductive Placed : List GlobToken → Branch → Branch → Prop where
  | plain (tail : List GlobToken) {seed seed' : List GlobToken}
    (h : Carries dir S seed.reverse seed'.reverse) :
    Placed tail ⟨[[]], tail ++ seed, false⟩ ⟨[[]], tail ++ seed', false⟩
  | grouped (tail : List GlobToken) {fronts fronts' : List (List GlobToken)}
    (h : List.Forall₂ (Carries dir S) fronts fronts') :
    Placed tail ⟨fronts, tail, true⟩ ⟨fronts', tail, true⟩

variable {tail : List GlobToken} {b b' : Branch}

theorem Placed.push (h : Placed dir S tail b b') (t : GlobToken) :
    Placed dir S (t :: tail) (b.push t) (b'.push t) := by
  cases h with
  | plain h => exact .plain (t :: tail) h
  | grouped h => exact .grouped (t :: tail) h

theorem Placed.expansions (h : Placed dir S tail b b') :
    List.Forall₂ (Carries dir S) b.expansions b'.expansions := by
  cases h with
  | plain h =>
    simp only [Branch.expansions, List.map_cons, List.map_nil, List.reverse_append, List.nil_append]
    exact .cons (h.append _) .nil
  | grouped h =>
    rw [Branch.expansions, Branch.expansions, List.forall₂_map_left_iff, List.forall₂_map_right_iff]
    exact h.imp fun _ _ h => h.append _

theorem Placed.pushGroup (h : Placed dir S tail b b')
    (choices : List (List GlobToken)) :
    Placed dir S [] (b.pushGroup choices) (b'.pushGroup choices) := by
  refine .grouped [] (List.rel_flatMap h.expansions fun front front' hfront => ?_)
  rw [List.forall₂_map_left_iff, List.forall₂_map_right_iff, List.forall₂_same]
  exact fun choice _ => hfront.append choice

/-- Some token has been read that does not stand for whole directories at the front
(`.leadingDirs`). -/
def Begun (tail : List GlobToken) (b : Branch) : Prop :=
  b.grouped = true ∨ ∃ t ∈ tail, t ≠ .leadingDirs

/-- The latest tokens of a branch after two stars between slashes. -/
def withInnerDirs : List GlobToken → List GlobToken
  | .leadingDirs :: older => .leadingDirs :: older
  | .trailing :: older => .trailing :: older
  | _ :: older => .innerDirs :: older
  | [] => [.innerDirs]

theorem replaceSlash_innerDirs (fronts : List (List GlobToken)) (ts : List GlobToken) (g : Bool) :
    (⟨fronts, ts, g⟩ : Branch).replaceSlash .innerDirs = ⟨fronts, withInnerDirs ts, g⟩ := by
  unfold Branch.replaceSlash withInnerDirs
  grind [Branch.push]

theorem withInnerDirs_append {ts : List GlobToken} (h : ts ≠ []) (us : List GlobToken) :
    withInnerDirs (ts ++ us) = withInnerDirs ts ++ us := by
  unfold withInnerDirs
  grind

theorem Begun.replaceSlash (h : Begun tail b) :
    Begun (withInnerDirs tail) (b.replaceSlash .innerDirs) := by
  rw [replaceSlash_innerDirs]
  refine h.imp_right fun ⟨t, ht, hne⟩ => ?_
  unfold withInnerDirs
  split
  · exact ⟨t, ht, hne⟩
  · exact ⟨t, ht, hne⟩
  · exact ⟨.innerDirs, List.mem_cons_self, nofun⟩
  · cases ht

/-- Two stars between slashes, on branches that are `Placed` and where something was read before
them. -/
theorem Placed.replaceSlash (h : Placed dir S tail b b') (hbegun : Begun tail b) :
    Placed dir S (withInnerDirs tail) (b.replaceSlash .innerDirs) (b'.replaceSlash .innerDirs) := by
  cases h with
  | plain h =>
    have hne : tail ≠ [] := by
      obtain hgrouped | ⟨t, ht, -⟩ := hbegun
      · cases hgrouped
      · exact List.ne_nil_of_mem ht
    simp only [replaceSlash_innerDirs, withInnerDirs_append hne]
    exact .plain _ h
  | grouped h =>
    simp only [replaceSlash_innerDirs]
    exact .grouped _ h

theorem Begun.isEmpty (h : Begun tail b) (hp : Placed dir S tail b b') :
    b.isEmpty = false ∧ b'.isEmpty = false := by
  cases hp with
  | plain =>
    obtain hgrouped | ⟨t, ht, -⟩ := h
    · cases hgrouped
    · simp [Branch.isEmpty, List.ne_nil_of_mem ht]
  | grouped => simp [Branch.isEmpty]

end

/-! ## Readers -/

/-- A text `cs` that ends neither in a slash nor in two stars behind one. -/
structure Settled (cs : List Char) : Prop where
  slash : ¬['/'] <:+ cs
  stars : ¬['/', '*', '*'] <:+ cs

theorem Settled.of_suffix {cs rest : List Char} (h : Settled cs) (hs : rest <:+ cs) : Settled rest :=
  ⟨fun h' => h.slash (h'.trans hs), fun h' => h.stars (h'.trans hs)⟩

section
variable (dir : String) (S : List UInt8 → Prop)

/-- Readers of one pattern at the same place of it: the second has read `dir` and a slash in front
of the pattern, the first nothing, or whole directories. -/
inductive Near : Reader → Reader → Prop where
  | start : Near {} ⟨some '/', [], ⟨[[]], .literal '/' :: (dirTokens dir).reverse, false⟩⟩
  | name (h : ∀ path, S path → slash ∉ path) :
    Near ⟨some '/', [], ⟨[[]], [.leadingDirs], false⟩⟩
      ⟨some '/', [], ⟨[[]], .literal '/' :: (dirTokens dir).reverse, false⟩⟩
  | dirs :
    Near ⟨some '/', [], ⟨[[]], [.leadingDirs], false⟩⟩
      ⟨some '/', [], ⟨[[]], .innerDirs :: (dirTokens dir).reverse, false⟩⟩
  | outside (before : Char) {tail : List GlobToken} {b b' : Branch} (h : Placed dir S tail b b')
    (hbegun : Begun tail b) : Near ⟨some before, [], b⟩ ⟨some before, [], b'⟩
  | inside (before : Char) (inner : List OpenGroup) (closed : List Branch) (b : Branch)
    {tail : List GlobToken} {outer outer' : Branch} (h : Placed dir S tail outer outer') :
    Near ⟨some before, inner ++ [⟨outer, closed⟩], b⟩ ⟨some before, inner ++ [⟨outer', closed⟩], b⟩

variable {dir S} {r r' : Reader} (h : Near dir S r r')
include h

theorem Near.exists_before : ∃ y, r'.before = some y := by
  cases h <;> exact ⟨_, rfl⟩

theorem Near.inGroup : r'.inGroup = r.inGroup := by
  cases h with
  | inside before inner => cases inner <;> rfl
  | start | name | dirs | outside => rfl

/-- Outside of groups the branches of readers that are `Near` go on in the same way. -/
theorem Near.exists_placed (hopen : r.open_ = []) :
    r'.open_ = [] ∧ ∃ tail, Placed dir S tail r.branch r'.branch := by
  have hplain : ∀ {seed seed' : List GlobToken}, Carries dir S seed.reverse seed'.reverse →
      Placed dir S [] ⟨[[]], seed, false⟩ ⟨[[]], seed', false⟩ := fun hseed => .plain [] hseed
  cases h with
  | start => exact ⟨rfl, [], hplain (by simpa using carries_slash)⟩
  | name h => exact ⟨rfl, [], hplain (by simpa using carries_name h)⟩
  | dirs => exact ⟨rfl, [], hplain (by simpa using carries_dirs)⟩
  | outside before h => exact ⟨rfl, _, h⟩
  | inside before inner => simp at hopen

/-! ## One piece -/

theorem Near.push {t : GlobToken} (ht : t ≠ .leadingDirs) (last : Char) (rest : List Char) :
    Near dir S (r.move (.push t) last rest).1 (r'.move (.push t) last rest).1 := by
  by_cases hopen : r.open_ = []
  · obtain ⟨hopen', tail, hp⟩ := h.exists_placed hopen
    simp only [Reader.move, hopen, hopen']
    exact .outside last (hp.push t) (.inr ⟨t, List.mem_cons_self, ht⟩)
  · cases h with
    | inside before inner closed b hp => exact .inside last inner closed (b.push t) hp
    | start | name | dirs | outside => exact absurd rfl hopen

theorem Near.openGroup (last : Char) (rest : List Char) :
    Near dir S (r.move .openGroup last rest).1 (r'.move .openGroup last rest).1 := by
  by_cases hopen : r.open_ = []
  · obtain ⟨hopen', tail, hp⟩ := h.exists_placed hopen
    simp only [Reader.move, hopen, hopen']
    exact .inside last [] [] {} hp
  · cases h with
    | inside before inner closed b hp => exact .inside last (⟨b, []⟩ :: inner) closed {} hp
    | start | name | dirs | outside => exact absurd rfl hopen

theorem Near.closeGroup (hgroup : r.inGroup = true) (last : Char) (rest : List Char) :
    Near dir S (r.move .closeGroup last rest).1 (r'.move .closeGroup last rest).1 := by
  cases h with
  | inside before inner closed b hp =>
    cases inner with
    | nil => exact .outside last (hp.pushGroup _) (.inl rfl)
    | cons group inner => exact .inside last inner closed _ hp
  | start | name | dirs | outside => cases hgroup

theorem Near.nextBranch (hgroup : r.inGroup = true) (last : Char) (rest : List Char) :
    Near dir S (r.move .nextBranch last rest).1 (r'.move .nextBranch last rest).1 := by
  cases h with
  | inside before inner closed b hp =>
    cases inner with
    | nil => exact .inside last [] (b :: closed) {} hp
    | cons group inner =>
      exact .inside last ({ group with closed := b :: group.closed } :: inner) closed {} hp
  | start | name | dirs | outside => cases hgroup

omit h

theorem move_stars_leading (more : List Char) :
    ({} : Reader).move .stars '*' ('/' :: more) =
      (⟨some '/', [], ⟨[[]], [.leadingDirs], false⟩⟩, more) := by
  simp [Reader.move, doubleStar, Branch.isEmpty, Branch.push]

/-- Two stars inside a pattern, behind a slash and outside of groups, that `move` past the next
one. -/
theorem move_stars_inner {r : Reader} (hopen : r.open_ = []) (hbefore : r.before = some '/')
    (hb : r.branch.isEmpty = false) (more : List Char) :
    r.move .stars '*' ('/' :: more) =
      (⟨some '/', [], r.branch.replaceSlash .innerDirs⟩, more) := by
  simp [Reader.move, doubleStar, Reader.inGroup, hopen, hbefore, hb]

/-- Two stars outside of groups that do not stand between slashes: `move` takes no slash with
them. -/
theorem move_stars_two {r : Reader} (hopen : r.open_ = []) {rest : List Char}
    (h : r.branch.isEmpty = true ∨ r.before = some '/' → rest ≠ [] ∧ rest.head? ≠ some '/') :
    r.move .stars '*' rest =
      (⟨some '*', [], (r.branch.push .anyName).push .anyName⟩, rest) := by
  have htwo : doubleStar false r.before r.branch rest =
      ((r.branch.push .anyName).push .anyName, rest, '*') := by
    unfold doubleStar
    cases rest <;> grind
  simp [Reader.move, Reader.inGroup, hopen, htwo]

include h

/-- Where a reader has an empty branch or stands behind a slash, one `Near` to it stands behind a
slash. -/
theorem Near.before_eq_slash (hopen : r.open_ = []) :
    (r.branch.isEmpty = true ∨ r.before = some '/' → r'.before = some '/') ∧
      (r'.branch.isEmpty = true → r'.before = some '/') := by
  cases h with
  | start | name | dirs => exact ⟨fun _ => rfl, fun _ => rfl⟩
  | outside before hp hbegun =>
    obtain ⟨hb, hb'⟩ := hbegun.isEmpty hp
    exact ⟨fun hr => hr.resolve_left (by simp [hb]), fun hr => absurd hr (by simp [hb'])⟩
  | inside before inner => simp at hopen

theorem Near.stars {y : Char} (hy : r'.before = some y) {rest : List Char}
    (hs : Settled (y :: '*' :: '*' :: rest)) :
    Near dir S (r.move .stars '*' rest).1 (r'.move .stars '*' rest).1 ∧
      (r'.move .stars '*' rest).2 = (r.move .stars '*' rest).2 := by
  by_cases hopen : r.open_ = []
  · obtain ⟨hopen', tail, hp⟩ := h.exists_placed hopen
    by_cases hslash : y = '/' ∧ rest.head? = some '/'
    · -- the stars take the slash: whole directories
      obtain ⟨rfl, hhead⟩ := hslash
      obtain ⟨more, rfl⟩ := List.head?_eq_some_iff.1 hhead
      cases h with
      | start =>
        rw [move_stars_leading, move_stars_inner rfl rfl rfl]
        exact ⟨.dirs, rfl⟩
      | name | dirs =>
        rw [move_stars_inner rfl rfl rfl, move_stars_inner rfl rfl rfl]
        exact ⟨.dirs, rfl⟩
      | outside before hp' hbegun =>
        obtain rfl := Option.some.inj hy
        obtain ⟨hb, hb'⟩ := hbegun.isEmpty hp'
        rw [move_stars_inner rfl rfl hb, move_stars_inner rfl rfl hb']
        exact ⟨.outside '/' (hp'.replaceSlash hbegun) hbegun.replaceSlash, rfl⟩
      | inside before inner => simp at hopen
    · have hleft : r'.before = some '/' → rest ≠ [] ∧ rest.head? ≠ some '/' := fun hbefore => by
        obtain rfl := Option.some.inj (hy.symm.trans hbefore)
        refine ⟨?_, fun hhead => hslash ⟨rfl, hhead⟩⟩
        rintro rfl
        exact hs.stars List.suffix_rfl
      obtain ⟨hr, hr'⟩ := h.before_eq_slash hopen
      rw [move_stars_two hopen fun hb => hleft (hr hb),
        move_stars_two hopen' fun hb => hleft (hb.elim hr' id)]
      exact ⟨.outside '*' ((hp.push .anyName).push .anyName)
        (.inr ⟨.anyName, List.mem_cons_self, nofun⟩), rfl⟩
  · have hgroup := h.inGroup
    cases h with
    | inside before inner closed b hp =>
      simp only [Reader.move, hgroup]
      exact ⟨.inside _ inner closed _ hp, trivial⟩
    | start | name | dirs | outside => exact absurd rfl hopen

/-- **One piece** is read alike by readers that are `Near` each other. -/
theorem Near.move {y : Char} (hy : r'.before = some y) {cs : List Char} (hs : Settled (y :: cs))
    {m : Move} {last : Char} {rest : List Char} (hreads : Reads r.inGroup cs m last rest) :
    Near dir S (r.move m last rest).1 (r'.move m last rest).1 ∧
      (r'.move m last rest).2 = (r.move m last rest).2 := by
  by_cases hstars : m = .stars
  · subst hstars
    cases hreads
    exact h.stars hy hs
  · refine ⟨?_, by rw [Reader.move_left hstars, Reader.move_left hstars]⟩
    cases hreads with
    | stars => exact absurd rfl hstars
    | anyByte | anyName | comma | escaped | oneOf | literal => exact h.push (by simp) _ _
    | openGroup => exact h.openGroup _ _
    | closeGroup _ hgroup => exact h.closeGroup hgroup _ _
    | nextBranch _ hgroup => exact h.nextBranch hgroup _ _

omit h

/-- **A whole pattern `cs`** is read alike. -/
theorem Near.exists_parse {cs : List Char} (h : Near dir S r r')
    (hs : ∀ y, r'.before = some y → Settled (y :: cs)) {found : List OpenGroup × Branch}
    (hparse : r.parse cs = .ok found) :
    ∃ e e' : Reader, Near dir S e e' ∧ (∀ y, e'.before = some y → Settled [y]) ∧
      found = (e.open_, e.branch) ∧ r'.parse cs = .ok (e'.open_, e'.branch) := by
  induction hn : cs.length using Nat.strongRecOn generalizing cs r r' with
  | _ n ih =>
    subst hn
    cases cs with
    | nil =>
      rw [Reader.parse, parseFrom.eq_1] at hparse
      exact ⟨r, r', h, hs, (Except.ok.inj hparse).symm, by rw [Reader.parse, parseFrom.eq_1]⟩
    | cons c cs =>
      obtain ⟨m, last, rest, hreads⟩ := exists_reads hparse
      have hreads' : Reads r'.inGroup (c :: cs) m last rest := by rwa [h.inGroup]
      obtain ⟨y, hy⟩ := h.exists_before
      obtain ⟨hmove, hleft⟩ := h.move hy (hs y hy) hreads
      rw [hreads.parse_eq] at hparse
      rw [hreads'.parse_eq, hleft]
      refine ih _ (hreads.move_length r) hmove (fun z hz => ?_) hparse rfl
      obtain ⟨z', hz', hsuffix⟩ := hreads'.move_suffix r'
      obtain rfl := Option.some.inj (hz.symm.trans hz')
      rw [hleft] at hsuffix
      exact (hs y hy).of_suffix (hsuffix.trans (List.suffix_cons y _))

/-- **What is read at last** outside of groups is `Placed`, and stands for no path as a whole. -/
theorem Near.placed_of_settled (h : Near dir S r r') (hs : ∀ y, r'.before = some y → Settled [y])
    (hopen : r.open_ = []) :
    r'.open_ = [] ∧ ∃ tail, Placed dir S tail r.branch r'.branch ∧ Begun tail r.branch := by
  cases h with
  | start | name | dirs => exact absurd List.suffix_rfl (hs '/' rfl).slash
  | outside before hp hbegun => exact ⟨rfl, _, hp, hbegun⟩
  | inside before inner => simp at hopen

end

/-! ## Whole patterns -/

/-- The expansions of a pattern whose end has been reached in `b`. -/
def Branch.atEnd (b : Branch) : List (List GlobToken) :=
  if b.grouped = false ∧ b.tokens = [.leadingDirs] then [[.everything]] else b.expansions

theorem Begun.atEnd {dir : String} {S : List UInt8 → Prop} {tail : List GlobToken} {b b' : Branch}
    (h : Begun tail b) (hp : Placed dir S tail b b') :
    b.atEnd = b.expansions ∧ b'.atEnd = b'.expansions := by
  cases hp with
  | plain =>
    obtain hgrouped | ⟨t, ht, hne⟩ := h
    · cases hgrouped
    · have hmore : ∀ seed, tail ++ seed ≠ [.leadingDirs] := fun seed he =>
        hne (List.mem_singleton.1 (he ▸ List.mem_append_left seed ht))
      exact ⟨if_neg fun hb => hmore _ hb.2, if_neg fun hb => hmore _ hb.2⟩
  | grouped => exact ⟨if_neg (by simp), if_neg (by simp)⟩

theorem parse_eq_ok {cs : List Char} {glob : Glob} :
    Glob.parse false (String.ofList cs) = .ok glob ↔
      ∃ b, ({} : Reader).parse cs = .ok ([], b) ∧ glob = ⟨b.atEnd⟩ := by
  rw [Glob.parse, String.toList_ofList]
  constructor
  · intro h
    split at h
    · cases h
    · cases h
    · next b hb => exact ⟨b, hb, (Except.ok.inj h).symm⟩
  · rintro ⟨b, hb, rfl⟩
    rw [Reader.parse] at hb
    rw [hb]
    rfl

variable {dir : String} {S : List UInt8 → Prop}

theorem any_matchTokens {tss tss' : List (List GlobToken)}
    (h : List.Forall₂ (Carries dir S) tss tss') {path : List UInt8} (hpath : S path) :
    tss'.any (matchTokens · (bytes dir ++ slash :: path)) = tss.any (matchTokens · path) := by
  induction h with
  | nil => rfl
  | cons hts _ ih =>
    have hone := hts [] path hpath
    rw [List.append_nil, List.append_nil] at hone
    rw [List.any_cons, List.any_cons, hone, ih]

theorem parse_leading (cs : List Char) :
    ({} : Reader).parse ('*' :: '*' :: '/' :: cs) =
      Reader.parse ⟨some '/', [], ⟨[[]], [.leadingDirs], false⟩⟩ cs :=
  parseFrom_leading cs

theorem parse_behind (hdir : Literal dir.toList) (cs : List Char) :
    ({} : Reader).parse (dir.toList ++ '/' :: cs) =
      Reader.parse ⟨some '/', [], ⟨[[]], .literal '/' :: (dirTokens dir).reverse, false⟩⟩ cs := by
  have hliteral : Literal (dir.toList ++ ['/']) := fun c hc =>
    (List.mem_append.1 hc).elim (hdir c) fun hc => List.mem_singleton.1 hc ▸ by decide
  have hsplit : dir.toList ++ '/' :: cs = (dir.toList ++ ['/']) ++ cs := by simp
  rw [Reader.parse, hsplit, parseFrom_literal hliteral]
  simp [Reader.parse, dirTokens]

/-! ## What can be read -/

/-- A text `cs` that can be read as a pattern. -/
def Accepted (cs : List Char) : Prop := ∃ glob, Glob.parse false (String.ofList cs) = .ok glob

/-- Whether a text is `Accepted` does not depend on what `r` has read before it. -/
theorem accepted_iff_of_parse {cs ds : List Char} {r : Reader} (hopen : r.open_ = [])
    (h : ({} : Reader).parse cs = r.parse ds) : Accepted cs ↔ Accepted ds := by
  have hlength : ∀ {e e' : Reader}, e.open_ = [] → e'.open_ = [] →
      (∃ b, e.parse ds = .ok ([], b)) → ∃ b, e'.parse ds = .ok ([], b) := by
    rintro e e' he he' ⟨b, hb⟩
    obtain ⟨⟨open', b'⟩, hb', hlen⟩ :=
      exists_parse_of_length (congrArg List.length (he'.trans he.symm)) hb
    obtain rfl := List.length_eq_zero_iff.1 hlen
    exact ⟨b', hb'⟩
  have hreader : ∀ {text}, Accepted text ↔ ∃ b, ({} : Reader).parse text = .ok ([], b) := by
    intro text
    constructor
    · rintro ⟨glob, hglob⟩
      obtain ⟨b, hb, -⟩ := parse_eq_ok.1 hglob
      exact ⟨b, hb⟩
    · rintro ⟨b, hb⟩
      exact ⟨_, parse_eq_ok.2 ⟨b, hb, rfl⟩⟩
  rw [hreader, hreader, h]
  exact ⟨hlength hopen rfl, hlength rfl hopen⟩

theorem accepted_leading {cs : List Char} :
    Accepted ('*' :: '*' :: '/' :: cs) ↔ Accepted cs :=
  accepted_iff_of_parse rfl (parse_leading cs)

theorem accepted_behind {dir : String} (hdir : Literal dir.toList) {cs : List Char} :
    Accepted (dir.toList ++ '/' :: cs) ↔ Accepted cs :=
  accepted_iff_of_parse rfl (parse_behind hdir cs)

theorem accepted_literal {cs : List Char} (h : Literal cs) : Accepted cs := by
  have hparse : ({} : Reader).parse cs = .ok ([], ⟨[[]], (cs.map .literal).reverse, false⟩) := by
    rw [Reader.parse, ← List.append_nil cs, parseFrom_literal h, parseFrom.eq_1]
    simp
  exact ⟨_, parse_eq_ok.2 ⟨_, hparse, rfl⟩⟩

/-- An escape in front of a mark `c` is read as the mark. -/
theorem parse_escaped {dir : String} (hdir : Literal dir.toList) {c : Char} (hc : c = '!' ∨ c = '#')
    (cs : List Char) {glob : Glob} :
    Glob.parse false (String.ofList (dir.toList ++ '/' :: '\\' :: c :: cs)) = .ok glob ↔
      Glob.parse false (String.ofList (dir.toList ++ '/' :: c :: cs)) = .ok glob := by
  have hliteral : c ∉ ['?', '*', '\x7b', '\x7d', ',', '\\', '['] := by
    rcases hc with rfl | rfl <;> decide
  have hsame : ∀ r : Reader, r.parse ('\\' :: c :: cs) = r.parse (c :: cs) := fun r =>
    (Reads.escaped c cs).parse_eq.trans (Reads.literal cs hliteral).parse_eq.symm
  rw [parse_eq_ok, parse_eq_ok, parse_behind hdir, parse_behind hdir, hsame]

/-! ## What is taken -/

/-- Readers that are `Near` each other come to globs that take the same paths. -/
theorem Near.exists_glob {r r' : Reader} (h : Near dir S r r') {cs : List Char}
    (hs : ∀ y, r'.before = some y → Settled (y :: cs)) {b : Branch}
    (hparse : r.parse cs = .ok ([], b)) :
    ∃ b', r'.parse cs = .ok ([], b') ∧ ∀ path, S path →
      b'.atEnd.any (matchTokens · (bytes dir ++ slash :: path)) =
        b.atEnd.any (matchTokens · path) := by
  obtain ⟨e, e', hnear, hend, hfound, hparse'⟩ := h.exists_parse hs hparse
  obtain ⟨hopen, rfl⟩ := Prod.mk.inj hfound
  obtain ⟨hopen', tail, hp, hbegun⟩ := hnear.placed_of_settled hend hopen.symm
  obtain ⟨hat, hat'⟩ := hbegun.atEnd hp
  refine ⟨e'.branch, by rw [hparse', hopen'], fun path hpath => ?_⟩
  rw [hat, hat', any_matchTokens hp.expansions hpath]

theorem bytes_behind (dir path : String) :
    bytes (dir ++ "/" ++ path) = bytes dir ++ slash :: bytes path := by
  have hslash : String.utf8EncodeChar '/' = [slash] := by decide
  simp [bytes_eq, hslash]

/-- **A pattern behind the directory `dir`** takes there the paths that it takes by itself. -/
theorem exists_parse_below (hdir : Literal dir.toList) {cs : List Char} (hs : Settled ('/' :: cs))
    {glob : Glob} (h : Glob.parse false (String.ofList cs) = .ok glob) :
    ∃ glob', Glob.parse false (String.ofList (dir.toList ++ '/' :: cs)) = .ok glob' ∧
      ∀ path : String, glob'.matches (dir ++ "/" ++ path) = glob.matches path := by
  obtain ⟨b, hb, rfl⟩ := parse_eq_ok.1 h
  have hnear : Near dir (fun _ => True) {} _ := .start
  obtain ⟨b', hb', hmatch⟩ := hnear.exists_glob (by rintro y ⟨⟩; exact hs) hb
  refine ⟨⟨b'.atEnd⟩, parse_eq_ok.2 ⟨b', (parse_behind hdir cs).trans hb', rfl⟩, fun path => ?_⟩
  rw [Glob.matches, bytes_behind]
  exact hmatch (bytes path) trivial

/-- **A pattern below any directory**, when it is put behind `dir`, keeps the files that stand right
there. -/
theorem exists_parse_name (hdir : Literal dir.toList) {cs : List Char} (hs : Settled ('/' :: cs))
    {glob : Glob} (h : Glob.parse false (String.ofList ('*' :: '*' :: '/' :: cs)) = .ok glob) :
    ∃ glob', Glob.parse false (String.ofList (dir.toList ++ '/' :: cs)) = .ok glob' ∧
      ∀ name : String, '/' ∉ name.toList →
        glob'.matches (dir ++ "/" ++ name) = glob.matches name := by
  obtain ⟨b, hb, rfl⟩ := parse_eq_ok.1 h
  rw [parse_leading] at hb
  have hnear : Near dir (slash ∉ ·) ⟨some '/', [], ⟨[[]], [.leadingDirs], false⟩⟩ _ :=
    .name fun _ hpath => hpath
  obtain ⟨b', hb', hmatch⟩ := hnear.exists_glob (by rintro y ⟨⟩; exact hs) hb
  refine ⟨⟨b'.atEnd⟩, parse_eq_ok.2 ⟨b', (parse_behind hdir cs).trans hb', rfl⟩, fun name hname => ?_⟩
  rw [Glob.matches, bytes_behind]
  exact hmatch (bytes name) (slash_not_mem_bytes hname)

theorem parse_stars : Glob.parse false (String.ofList ['*', '*']) = .ok ⟨[[.everything]]⟩ := by
  refine parse_eq_ok.2 ⟨⟨[[]], [.leadingDirs], false⟩, ?_, rfl⟩
  rw [Reader.parse, parseFrom.eq_3]
  simp [doubleStar, Branch.isEmpty, Branch.push, parseFrom.eq_1]

theorem matches_everything (path : String) : (⟨[[.everything]]⟩ : Glob).matches path = true := by
  have hends : ∀ bs : List UInt8, [] ∈ endings bs := by
    intro bs
    induction bs with
    | nil => exact List.mem_cons_self
    | cons b bs ih => exact List.mem_cons_of_mem _ ih
  rw [Glob.matches, List.any_cons, Bool.or_eq_true]
  exact .inl (List.any_eq_true.2 ⟨[], hends _, rfl⟩)

/-- The pattern of what is `inside` a directory takes all files there. -/
theorem exists_parse_inside (hdir : Literal dir.toList) :
    ∃ glob, Glob.parse false (String.ofList (inside dir.toList)) = .ok glob ∧
      ∀ names, names ≠ [] → Slashless names →
        glob.matches (dir ++ "/" ++ Path.ofSegments names) = true := by
  refine ⟨_, parse_inside hdir, fun names hnames hno => ?_⟩
  have hempty : bytes "" = [] := by simp [bytes_eq]
  have hall := (matchTokens_anywhere (show '/' ∉ "".toList by decide) hno hnames).2
    (hempty ▸ List.nil_suffix)
  have hcarried : Carries dir (fun _ => True) [.leadingDirs] (dirTokens dir ++ [.innerDirs]) :=
    carries_dirs
  have hbehind := hcarried (nameTokens "") (bytes (Path.ofSegments names)) trivial
  rw [List.append_assoc, List.singleton_append, List.singleton_append, hall] at hbehind
  rw [Glob.matches, bytes_behind, List.any_cons, Bool.or_eq_true]
  exact .inl hbehind

end FlowMigration.Glob
