import FlowMigration.Ignore.Rule
import FlowMigration.Proofs.Glob.Placed

/-!
# Lines behind a directory

How a line of ignore rules reads when a directory and a slash are put in front of it.

* `trimLine_behind`, `Body.marks_behind`: what is taken off its ends.
* `exists_matches_behind`: what its pattern takes of the paths below the directory.
* `exists_parse_behind`: a line that can be read can be read behind a directory, and is about the
  same files.
-/

namespace FlowMigration.IgnoreRule

open Glob

/-! ## The ends of a line -/

theorem trimLine_behind (front line : List Char) :
    trimLine (front ++ '/' :: line) = front ++ '/' :: trimLine line := by
  have hblank : Text.isBlank '/' = false := by decide
  have hescape : (front ++ '/' :: line).reverse.take 2 = [' ', '\\'] ↔
      line.reverse.take 2 = [' ', '\\'] := by
    rw [List.reverse_append, List.reverse_cons, List.append_assoc]
    match line.reverse with
    | [] => simp
    | [c] => simp
    | c :: d :: more => simp
  unfold trimLine
  simp only [hescape]
  split
  · rfl
  · rw [List.reverse_append, List.reverse_cons, List.append_assoc, List.dropWhile_append]
    split
    · next hempty =>
      rw [List.isEmpty_iff.1 hempty, List.singleton_append,
        List.dropWhile_cons_of_neg (by simp [hblank])]
      simp
    · simp

theorem stripDirSlash_of_ne {cs : List Char} (h : cs.getLast? ≠ some '/') :
    stripDirSlash cs = (false, cs) := by
  rw [← List.head?_reverse] at h
  unfold stripDirSlash
  split
  · next he => exact absurd (by rw [he]; rfl) h
  · next he => exact absurd (by rw [he]; rfl) h
  · rfl

theorem stripDirSlash_escaped (cs : List Char) :
    stripDirSlash (cs ++ ['\\', '/']) = (true, cs) := by
  simp [stripDirSlash]

theorem stripDirSlash_slash {cs : List Char} (h : cs.getLast? ≠ some '\\') :
    stripDirSlash (cs ++ ['/']) = (true, cs) := by
  rw [← List.head?_reverse] at h
  unfold stripDirSlash
  rw [List.reverse_append, List.reverse_singleton, List.singleton_append]
  split
  · next more he => exact absurd (by rw [(List.cons.inj he).2]; rfl) h
  · next he => rw [← (List.cons.inj he).2, List.reverse_reverse]
  · next hno => exact absurd rfl (hno _)

theorem stripDirSlash_eq_false {cs : List Char} (h : (stripDirSlash cs).1 = false) :
    cs.getLast? ≠ some '/' ∧ (stripDirSlash cs).2 = cs := by
  have hlast : cs.getLast? ≠ some '/' := by
    intro hlast
    obtain ⟨init, rfl⟩ := List.getLast?_eq_some_iff.1 hlast
    by_cases hescape : init.getLast? = some '\\'
    · obtain ⟨init, rfl⟩ := List.getLast?_eq_some_iff.1 hescape
      rw [List.append_assoc, List.singleton_append, stripDirSlash_escaped] at h
      cases h
    · rw [stripDirSlash_slash hescape] at h
      cases h
  exact ⟨hlast, by rw [stripDirSlash_of_ne hlast]⟩

/-- What `stripDirSlash` takes off the end of a line does not reach the text in front of it, unless
that ends in an escape. -/
theorem stripDirSlash_append {front line : List Char} (hne : line ≠ [])
    (h : front.getLast? ≠ some '\\' ∨ line ≠ ['/']) :
    stripDirSlash (front ++ line) =
      ((stripDirSlash line).1, front ++ (stripDirSlash line).2) := by
  by_cases hlast : line.getLast? = some '/'
  · obtain ⟨init, rfl⟩ := List.getLast?_eq_some_iff.1 hlast
    by_cases hescape : init.getLast? = some '\\'
    · obtain ⟨init, rfl⟩ := List.getLast?_eq_some_iff.1 hescape
      have hsplit : ∀ cs : List Char, cs ++ ['\\'] ++ ['/'] = cs ++ ['\\', '/'] := by simp
      rw [← List.append_assoc, ← List.append_assoc, hsplit, hsplit, stripDirSlash_escaped,
        stripDirSlash_escaped]
    · rw [← List.append_assoc, stripDirSlash_slash hescape, stripDirSlash_slash]
      cases init with
      | nil => simpa using h
      | cons c init => simpa [List.getLast?_append] using hescape
  · rw [stripDirSlash_of_ne hlast, stripDirSlash_of_ne]
    rwa [List.getLast?_append_of_ne_nil _ hne]

theorem exists_stripDirSlash_cons {c : Char} (hslash : c ≠ '/') (hescape : c ≠ '\\')
    (more : List Char) : ∃ rest, (stripDirSlash (c :: more)).2 = c :: rest := by
  by_cases hmore : more = []
  · subst hmore
    rw [stripDirSlash_of_ne (by simpa using hslash)]
    exact ⟨[], rfl⟩
  · rw [← List.singleton_append, stripDirSlash_append hmore (.inl (by simpa using hescape))]
    exact ⟨_, rfl⟩

/-! ## Marks -/

/-- A `line` that does not begin with the mark of a negated rule, of a comment or of a rule for the
directory itself. -/
def Bare (line : List Char) : Prop := ∀ c ∈ line.head?, c ≠ '!' ∧ c ≠ '#' ∧ c ≠ '/'

instance (line : List Char) : Decidable (Bare line) :=
  match line with
  | [] => isTrue nofun
  | c :: _ => decidable_of_iff (c ≠ '!' ∧ c ≠ '#' ∧ c ≠ '/')
    ⟨fun h _ hc => Option.some.inj hc ▸ h, fun h => h c rfl⟩

/-- The `body` of a `line` that is `Bare`, which is read as a pattern: an escape in front of a mark
is no part of it. -/
structure Body (line escape body : List Char) : Prop where
  split : line = escape ++ body
  escape : escape = [] ∨ escape = ['\\'] ∧ ∃ c more, body = c :: more ∧ (c = '!' ∨ c = '#')

theorem marks_eq {line : List Char} (h : ∀ c ∈ line.head?, c ≠ '!' ∧ c ≠ '/')
    (hescape : ∀ c rest, line = '\\' :: c :: rest → c ≠ '!' ∧ c ≠ '#') :
    marks line = ⟨false, false, (stripDirSlash line).1, (stripDirSlash line).2⟩ := by
  unfold marks
  split
  · next rest => exact absurd rfl (hescape '!' rest rfl).1
  · next rest => exact absurd rfl (hescape '#' rest rfl).2
  · cases line with
    | nil => rfl
    | cons c line =>
      obtain ⟨hbang, hslash⟩ := h c rfl
      simp [hbang, hslash]

theorem exists_body {line : List Char} (h : Bare line) :
    ∃ escape body, Body line escape body ∧
      marks line = ⟨false, false, (stripDirSlash body).1, (stripDirSlash body).2⟩ := by
  by_cases hescape : ∃ c rest, line = '\\' :: c :: rest ∧ (c = '!' ∨ c = '#')
  · obtain ⟨c, rest, rfl, hc⟩ := hescape
    refine ⟨['\\'], c :: rest, ⟨rfl, .inr ⟨rfl, c, rest, rfl, hc⟩⟩, ?_⟩
    rcases hc with rfl | rfl <;> rfl
  · refine ⟨[], line, ⟨rfl, .inl rfl⟩, marks_eq (fun c hc => ⟨(h c hc).1, (h c hc).2.2⟩) ?_⟩
    exact fun c rest he => ⟨fun hc => hescape ⟨c, rest, he, .inl hc⟩,
      fun hc => hescape ⟨c, rest, he, .inr hc⟩⟩

/-- **The `marks` of a line behind a directory** are those of the line. -/
theorem Body.marks_behind {line escape body front : List Char} (h : Body line escape body)
    (hne : body ≠ []) (hfront : ∃ c rest, front = c :: rest ∧ c ≠ '!' ∧ c ≠ '/' ∧ c ≠ '\\') :
    marks (front ++ '/' :: line) =
      ⟨false, false, (stripDirSlash body).1,
        front ++ '/' :: (escape ++ (stripDirSlash body).2)⟩ := by
  obtain ⟨c, rest, rfl, hbang, hslash, hback⟩ := hfront
  have hhead : ∀ d ∈ (c :: rest ++ '/' :: line).head?, d ≠ '!' ∧ d ≠ '/' := by
    simp [hbang, hslash]
  rw [marks_eq hhead fun d more he => absurd (List.cons.inj he).1 hback]
  have hsplit : ∀ cs, c :: rest ++ '/' :: (escape ++ cs) = (c :: rest ++ '/' :: escape) ++ cs := by
    simp
  rw [h.split, hsplit, hsplit, stripDirSlash_append hne]
  rcases h.escape with rfl | ⟨rfl, d, more, rfl, hd⟩
  · exact .inl (by simp [List.getLast?_cons])
  · refine .inr fun he => ?_
    rcases hd with rfl | rfl <;> exact absurd (List.cons.inj he).1 (by decide)

/-! ## Patterns -/

/-- A pattern `cs` that ends in whole directories stands for what is inside them. -/
def insideStars (cs : List Char) : List Char :=
  if ['/', '*', '*'] <:+ cs then cs ++ ['/', '*'] else cs

theorem take_reverse_iff {cs : List Char} :
    cs.reverse.take 3 = ['*', '*', '/'] ↔ ['/', '*', '*'] <:+ cs := by
  rw [← List.reverse_prefix, List.prefix_iff_eq_take]
  exact eq_comm

theorem fullPattern_of_slash {negated dirs : Bool} {cs : List Char} (h : '/' ∈ cs) :
    fullPattern ⟨negated, false, dirs, cs⟩ = insideStars cs := by
  simp only [fullPattern, insideStars, take_reverse_iff]
  simp [h]

theorem fullPattern_of_stars {negated dirs : Bool} :
    fullPattern ⟨negated, false, dirs, ['*', '*']⟩ = ['*', '*'] := by
  simp [fullPattern]

theorem fullPattern_of_name {negated dirs : Bool} {cs : List Char} (h : '/' ∉ cs)
    (hstars : cs ≠ ['*', '*']) :
    fullPattern ⟨negated, false, dirs, cs⟩ = '*' :: '*' :: '/' :: cs := by
  have hnot : ¬['/', '*', '*'] <:+ '*' :: '*' :: '/' :: cs := by
    intro hs
    rcases List.suffix_or_suffix_of_suffix hs (List.suffix_append ['*', '*', '/'] cs) with hin | hin
    · exact h (hin.mem List.mem_cons_self)
    · simp only [List.suffix_cons_iff, List.suffix_nil, hstars, false_or] at hin
      rcases hin with rfl | rfl | rfl
      · exact h List.mem_cons_self
      · exact absurd hs (by decide)
      · exact absurd hs (by decide)
  simp only [fullPattern, take_reverse_iff]
  simp [h, hstars, hnot]

theorem insideStars_append {front cs : List Char} (h : ¬cs <:+ ['*', '*']) :
    insideStars (front ++ cs) = front ++ insideStars cs := by
  have hiff : ['/', '*', '*'] <:+ front ++ cs ↔ ['/', '*', '*'] <:+ cs := by
    refine ⟨fun hs => ?_, fun hs => hs.trans (List.suffix_append front cs)⟩
    rcases List.suffix_or_suffix_of_suffix hs (List.suffix_append front cs) with hs | hs
    · exact hs
    · rcases List.suffix_cons_iff.1 hs with rfl | hs
      · exact List.suffix_rfl
      · exact absurd hs h
  unfold insideStars
  simp only [hiff]
  split <;> simp

theorem insideStars_of_slash {cs : List Char} (h : '/' ∈ cs) :
    insideStars ('/' :: cs) = '/' :: insideStars cs := by
  have hnot : ¬cs <:+ ['*', '*'] := fun hs => by simpa using hs.mem h
  rw [← List.singleton_append, insideStars_append hnot, List.singleton_append]

theorem insideStars_of_name {cs : List Char} (h : '/' ∉ cs) (hstars : cs ≠ ['*', '*']) :
    insideStars ('/' :: cs) = '/' :: cs := by
  refine if_neg fun hs => ?_
  rcases List.suffix_cons_iff.1 hs with he | hs
  · exact hstars (List.cons.inj he).2.symm
  · exact h (hs.mem List.mem_cons_self)

/-! ## Reading behind a directory -/

/-- **What is `Accepted` by itself** is so behind a directory. -/
theorem accepted_of_fullPattern {dir : String} (hdir : Literal dir.toList) {dirs : Bool}
    {cs : List Char} (h : Accepted (fullPattern ⟨false, false, dirs, cs⟩)) :
    Accepted (dir.toList ++ insideStars ('/' :: cs)) := by
  by_cases hslash : '/' ∈ cs
  · rw [fullPattern_of_slash hslash] at h
    rw [insideStars_of_slash hslash]
    exact (accepted_behind hdir).2 h
  by_cases hstars : cs = ['*', '*']
  · subst hstars
    have hinside : insideStars ['/', '*', '*'] = '/' :: '*' :: '*' :: '/' :: ['*'] := by decide
    have hname : Accepted ['*'] := by
      refine ⟨⟨[[.anyName]]⟩, parse_eq_ok.2 ⟨⟨[[]], [.anyName], false⟩, ?_, by decide⟩⟩
      rw [Reader.parse, parseFrom.eq_4 _ _ _ _ _ _ (by simp), parseFrom.eq_1]
      rfl
    rw [hinside, accepted_behind hdir, accepted_leading]
    exact hname
  · rw [fullPattern_of_name hslash hstars, accepted_leading] at h
    rw [insideStars_of_name hslash hstars]
    exact (accepted_behind hdir).2 h

/-! ## Matching behind a directory -/

theorem settled_insideStars {cs : List Char} (h : '/' ∈ cs) (hlast : cs.getLast? ≠ some '/') :
    Settled ('/' :: insideStars cs) := by
  unfold insideStars
  split
  · constructor <;> intro hs
    · rw [← List.reverse_prefix] at hs
      simp at hs
    · rw [← List.reverse_prefix] at hs
      simp at hs
  · next hnot =>
    constructor <;> intro hs
    · rcases List.suffix_cons_iff.1 hs with he | ⟨init, rfl⟩
      · exact List.ne_nil_of_mem h (List.cons.inj he).2.symm
      · exact hlast List.getLast?_concat
    · rcases List.suffix_cons_iff.1 hs with he | hs
      · rw [← (List.cons.inj he).2] at h
        exact absurd h (by decide)
      · exact hnot hs

theorem settled_of_name {cs : List Char} (hne : cs ≠ []) (h : '/' ∉ cs) (hstars : cs ≠ ['*', '*']) :
    Settled ('/' :: cs) where
  slash hs := by
    rcases List.suffix_cons_iff.1 hs with he | hs
    · exact hne (List.cons.inj he).2.symm
    · exact h (hs.mem List.mem_cons_self)
  stars hs := by
    rcases List.suffix_cons_iff.1 hs with he | hs
    · exact hstars (List.cons.inj he).2.symm
    · exact h (hs.mem List.mem_cons_self)

/-- **What a pattern `cs` takes by itself** it takes behind a directory: any file, if it goes
through a directory of its own or takes all files, and otherwise the files that stand right
there. -/
theorem exists_matches_behind {dir : String} (hdir : Literal dir.toList) {dirs : Bool}
    {cs : List Char} (hne : cs ≠ []) (hlast : cs.getLast? ≠ some '/') {glob : Glob}
    (h : Glob.parse false (String.ofList (fullPattern ⟨false, false, dirs, cs⟩)) = .ok glob) :
    ∃ glob', Glob.parse false (String.ofList (dir.toList ++ insideStars ('/' :: cs))) = .ok glob' ∧
      ∀ names, names ≠ [] → Slashless names → ('/' ∈ cs ∨ cs = ['*', '*'] ∨ names.length = 1) →
        glob'.matches (dir ++ "/" ++ Path.ofSegments names) =
          glob.matches (Path.ofSegments names) := by
  by_cases hslash : '/' ∈ cs
  · rw [fullPattern_of_slash hslash] at h
    rw [insideStars_of_slash hslash]
    obtain ⟨glob', hglob', hmatch⟩ := exists_parse_below hdir (settled_insideStars hslash hlast) h
    exact ⟨glob', hglob', fun names _ _ _ => hmatch _⟩
  by_cases hstars : cs = ['*', '*']
  · subst hstars
    have hinside : dir.toList ++ insideStars ['/', '*', '*'] = inside dir.toList := by
      have hstars : insideStars ['/', '*', '*'] = ['/', '*', '*', '/', '*'] := by decide
      rw [hstars, inside]
    rw [fullPattern_of_stars, parse_stars] at h
    obtain rfl := Except.ok.inj h
    obtain ⟨glob', hglob', hmatch⟩ := exists_parse_inside hdir
    rw [hinside]
    exact ⟨glob', hglob', fun names hnames hno _ =>
      (hmatch names hnames hno).trans (matches_everything _).symm⟩
  · rw [fullPattern_of_name hslash hstars] at h
    rw [insideStars_of_name hslash hstars]
    obtain ⟨glob', hglob', hmatch⟩ := exists_parse_name hdir (settled_of_name hne hslash hstars) h
    refine ⟨glob', hglob', fun names hnames hno hcases => hmatch _ ?_⟩
    obtain ⟨name, rfl⟩ := List.length_eq_one_iff.1
      ((hcases.resolve_left hslash).resolve_left hstars)
    rw [Path.toList_ofSegments, List.map_singleton, Path.unpieces]
    exact hno name List.mem_cons_self

/-! ## Lines behind a directory -/

/-- A `line` that is about the same files wherever it is read from: it goes through a directory, or
is about all files or none. -/
def Everywhere (line : List Char) : Prop :=
  '/' ∈ trimLine line ∨ trimLine line = ['*', '*'] ∨ trimLine line = []

instance (line : List Char) : Decidable (Everywhere line) :=
  inferInstanceAs (Decidable (_ ∨ _ ∨ _))

theorem trimLine_prefix (line : List Char) : trimLine line <+: line := by
  unfold trimLine
  split
  · exact List.prefix_rfl
  · rw [← List.reverse_suffix, List.reverse_reverse]
    exact List.dropWhile_suffix _

theorem Bare.trimLine {line : List Char} (h : Bare line) : Bare (trimLine line) := by
  obtain ⟨rest, hrest⟩ := trimLine_prefix line
  intro c hc
  refine h c ?_
  rw [← hrest, List.head?_append, hc]
  rfl

theorem parse_of_trimmed {line : String} (hhash : line.toList.head? ≠ some '#')
    (hne : IgnoreRule.trimLine line.toList ≠ []) {m : Marks}
    (hmarks : marks (IgnoreRule.trimLine line.toList) = m) {first : Option IgnoreRule} :
    parse false line = .ok first ↔ ∃ glob,
      Glob.parse false (String.ofList (fullPattern m)) = .ok glob ∧
        first = some ⟨glob, m.negated, m.onlyDirs⟩ := by
  subst hmarks
  rw [parse, if_neg hhash]
  dsimp only
  rw [if_neg hne]
  cases Glob.parse false (String.ofList (fullPattern (marks (IgnoreRule.trimLine line.toList)))) with
  | error cause => simp
  | ok glob => simp [eq_comm]

/-- The pattern of a `line` behind the directory `dir`. -/
theorem Body.parse_behind {line escape body : List Char} (h : Body line escape body)
    {dir : String} (hdir : Literal dir.toList) {dirs : Bool} {glob : Glob} :
    Glob.parse false (String.ofList (fullPattern
        ⟨false, false, dirs, dir.toList ++ '/' :: (escape ++ (stripDirSlash body).2)⟩)) = .ok glob ↔
      Glob.parse false
        (String.ofList (dir.toList ++ insideStars ('/' :: (stripDirSlash body).2))) = .ok glob := by
  have hmem : ∀ cs, ¬ '/' :: cs <:+ ['*', '*'] := fun cs hs => by
    simpa using hs.mem List.mem_cons_self
  rw [fullPattern_of_slash (by simp), insideStars_append (hmem _)]
  rcases h.escape with rfl | ⟨rfl, c, more, rfl, hc⟩
  · rfl
  · obtain ⟨hslash, hescape, hnot⟩ : c ≠ '/' ∧ c ≠ '\\' ∧ ∀ cs, ¬c :: cs <:+ ['*', '*'] := by
      refine ⟨?_, ?_, fun cs hs => ?_⟩
      · rcases hc with rfl | rfl <;> decide
      · rcases hc with rfl | rfl <;> decide
      · have hc' : c ∈ ['*', '*'] := hs.mem List.mem_cons_self
        rcases hc with rfl | rfl <;> exact absurd hc' (by decide)
    obtain ⟨rest, hrest⟩ := exists_stripDirSlash_cons hslash hescape more
    have hinside : ∃ rest', insideStars (c :: rest) = c :: rest' := by
      unfold insideStars
      split <;> exact ⟨_, rfl⟩
    obtain ⟨rest', hrest'⟩ := hinside
    have hplain : insideStars (['/'] ++ c :: rest) = '/' :: c :: rest' := by
      rw [insideStars_append (hnot rest), hrest', List.singleton_append]
    have hescaped : insideStars (['/', '\\'] ++ c :: rest) = '/' :: '\\' :: c :: rest' := by
      rw [insideStars_append (hnot rest), hrest']
      rfl
    rw [hrest]
    exact hplain ▸ hescaped ▸ parse_escaped hdir hc rest'

theorem Body.mem_slash {line escape body : List Char} (h : Body line escape body) :
    '/' ∈ line ↔ '/' ∈ body := by
  rw [h.split]
  rcases h.escape with rfl | ⟨rfl, -⟩ <;> simp

theorem Body.eq_stars {line escape body : List Char} (h : Body line escape body)
    (hstars : line = ['*', '*']) : body = ['*', '*'] := by
  rcases h.escape with rfl | ⟨rfl, -⟩
  · rw [← hstars, h.split, List.nil_append]
  · rw [h.split] at hstars
    exact absurd (List.cons.inj hstars).1 (by decide)

theorem applies_onlyDirs {glob : Glob} {negated : Bool} (path : String) :
    (⟨glob, negated, true⟩ : IgnoreRule).applies path false = false := rfl

section
variable {dir : String} (hdir : Literal dir.toList)
  (hhead : ∃ c rest, dir.toList = c :: rest ∧ c ≠ '!' ∧ c ≠ '#' ∧ c ≠ '/' ∧ c ≠ '\\')
  {line : String}
include hhead

theorem parse_behind {m : Marks}
    (hmarks : marks (dir.toList ++ '/' :: trimLine line.toList) = m) {glob : Glob}
    (h : Glob.parse false (String.ofList (fullPattern m)) = .ok glob) :
    parse false (dir ++ "/" ++ line) = .ok (some ⟨glob, m.negated, m.onlyDirs⟩) := by
  obtain ⟨c, rest, hcs, -, hhash, -⟩ := hhead
  have htext : (dir ++ "/" ++ line).toList = dir.toList ++ '/' :: line.toList := by simp
  have hhash' : (dir ++ "/" ++ line).toList.head? ≠ some '#' := by simpa [htext, hcs] using hhash
  rw [← trimLine_behind, ← htext] at hmarks
  refine (parse_of_trimmed hhash' ?_ hmarks).2 ⟨glob, h, rfl⟩
  rw [htext, trimLine_behind]
  simp

include hdir

theorem exists_parse_blank (hblank : trimLine line.toList = []) :
    ∃ glob, parse false (dir ++ "/" ++ line) = .ok (some ⟨glob, false, true⟩) := by
  have hstar : '*' ∉ dir.toList := fun hm => hdir '*' hm (by decide)
  have hback : dir.toList.getLast? ≠ some '\\' := fun hl =>
    hdir '\\' (List.mem_of_getLast? hl) (by decide)
  have hmarks : marks (dir.toList ++ '/' :: trimLine line.toList) =
      ⟨false, false, true, dir.toList⟩ := by
    obtain ⟨c, rest, hcs, hbang, -, hslash, hescape⟩ := hhead
    rw [hblank, marks_eq, stripDirSlash_slash hback]
    · simp [hcs, hbang, hslash]
    · exact fun d more he => absurd (List.cons.inj (hcs ▸ he)).1 hescape
  have hfull : Accepted (fullPattern ⟨false, false, true, dir.toList⟩) := by
    by_cases hslash : '/' ∈ dir.toList
    · have hnot : ¬['/', '*', '*'] <:+ dir.toList := fun hs => hstar (hs.mem (by simp))
      rw [fullPattern_of_slash hslash, insideStars, if_neg hnot]
      exact accepted_literal hdir
    · rw [fullPattern_of_name hslash, accepted_leading]
      · exact accepted_literal hdir
      · exact fun he => hstar (he ▸ List.mem_cons_self)
  obtain ⟨glob, hglob⟩ := hfull
  exact ⟨glob, parse_behind hhead hmarks hglob⟩

/-- **A `line` behind a directory** holds a rule for the files that it is about by itself: for all
of them below the directory, if it is about the same files `Everywhere`, and otherwise for those
that stand right there. -/
theorem exists_parse_behind (hbare : Bare line.toList) {first : Option IgnoreRule}
    (h : parse false line = .ok first) :
    ∃ first', parse false (dir ++ "/" ++ line) = .ok first' ∧
      (∀ rule ∈ first, rule.negated = false) ∧ (∀ rule ∈ first', rule.negated = false) ∧
      ∀ names, names ≠ [] → Slashless names → (Everywhere line.toList ∨ names.length = 1) →
        first'.any (·.applies (dir ++ "/" ++ Path.ofSegments names) false) =
          first.any (·.applies (Path.ofSegments names) false) := by
  have hhash : line.toList.head? ≠ some '#' := fun hc => (hbare '#' hc).2.1 rfl
  by_cases hblank : trimLine line.toList = []
  · obtain ⟨glob, hglob⟩ := exists_parse_blank hdir hhead hblank
    have hnone : first = none := by
      rw [parse, if_neg hhash] at h
      dsimp only at h
      rw [if_pos hblank] at h
      exact (Except.ok.inj h).symm
    subst hnone
    exact ⟨_, hglob, by simp, by simp, fun names _ _ _ => by simp [applies_onlyDirs]⟩
  obtain ⟨escape, body, hbody, hmarks⟩ := exists_body hbare.trimLine
  obtain ⟨glob, hglob, rfl⟩ := (parse_of_trimmed hhash hblank hmarks).1 h
  have hne : body ≠ [] := by
    rintro rfl
    rcases hbody.escape with rfl | ⟨-, c, more, hc, -⟩
    · exact hblank hbody.split
    · cases hc
  have hmarks' := hbody.marks_behind hne
    (hhead.imp fun c => Exists.imp fun rest h => ⟨h.1, h.2.1, h.2.2.2⟩)
  cases hdirs : (stripDirSlash body).1 with
  | true =>
    obtain ⟨glob', hglob'⟩ := accepted_of_fullPattern hdir ⟨glob, hglob⟩
    have hparse := parse_behind hhead hmarks' ((hbody.parse_behind hdir).2 hglob')
    rw [hdirs] at hparse
    exact ⟨_, hparse, by simp, by simp, fun names _ _ _ => by simp [applies_onlyDirs]⟩
  | false =>
    obtain ⟨hlast, hsame⟩ := stripDirSlash_eq_false hdirs
    rw [hsame, hdirs] at hglob
    obtain ⟨glob', hglob', hmatch⟩ := exists_matches_behind hdir hne hlast hglob
    have hparse := parse_behind hhead hmarks' ((hbody.parse_behind hdir).2 (hsame.symm ▸ hglob'))
    rw [hdirs] at hparse
    refine ⟨_, hparse, by simp, by simp, fun names hnames hno hcases => ?_⟩
    have hcases' : '/' ∈ body ∨ body = ['*', '*'] ∨ names.length = 1 := by
      rcases hcases with (hslash | hstars | hnil) | hone
      · exact .inl (hbody.mem_slash.1 hslash)
      · exact .inr (.inl (hbody.eq_stars hstars))
      · exact absurd hnil hblank
      · exact .inr (.inr hone)
    simp only [Option.any_some, applies, Bool.not_false, Bool.true_or, Bool.true_and]
    exact hmatch names hnames hno hcases'

end

end FlowMigration.IgnoreRule
