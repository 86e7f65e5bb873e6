import FlowMigration.Package.Scope
import FlowMigration.Proofs.Glob.Ending
import FlowMigration.Proofs.Path.Pieces
import FlowMigration.Proofs.Results

/-!
# What the default sources take in

The default glob ends in a group of endings, so every file that it takes in, in whatever package,
ends in one of a few letters.

* `expansions_of_group`: the expansions of a pattern that ends in the group.
* `ending_of_takesIn`: the last bytes of a path that is taken in.
* `getLast?_of_takesIn`: hence its last letter is none of those that other files end in.
-/

namespace FlowMigration.PackageScope

open Glob

/-! ## The group of endings -/

/-- The group that the default glob ends in. -/
def endingGroup : List Char := "\x7bjs,mjs,jsx,js.flow\x7d".toList

/-- The last letters of the endings in `endingGroup`. -/
def endingLetters : List Char := ['s', 'x', 'w']

theorem separate_endingGroup : Separate endingGroup where
  no_bracket := by decide
  head := ⟨'\x7b', _, rfl, by decide, by decide, by decide, by decide⟩

/-- A `text` as literal tokens. -/
def literals (text : String) : List GlobToken := text.toList.map .literal

theorem parseFrom_endingGroup (before : Option Char) (open_ : List OpenGroup) (b : Branch) :
    parseFrom false true before open_ b endingGroup =
      .ok (open_, b.pushGroup (sourceExtensions.map literals)) := by
  have hchars : endingGroup = ['\x7b', 'j', 's', ',', 'm', 'j', 's', ',', 'j', 's', 'x', ',',
      'j', 's', '.', 'f', 'l', 'o', 'w', '\x7d'] := by decide
  have hchoices : groupChoices
      [{ tokens := [.literal 's', .literal 'j'] },
        { tokens := [.literal 's', .literal 'j', .literal 'm'] },
        { tokens := [.literal 'x', .literal 's', .literal 'j'] },
        { tokens := [.literal 'w', .literal 'o', .literal 'l', .literal 'f', .literal '.',
            .literal 's', .literal 'j'] }] = sourceExtensions.map literals := by
    decide
  simp [hchars, parseFrom, Branch.push, hchoices]

theorem exists_of_mem_endings {ts : List GlobToken} (h : ts ∈ sourceExtensions.map literals) :
    ∃ front c, c ∈ endingLetters ∧ ts = front ++ [.literal c] := by
  simp only [sourceExtensions, List.map_cons, List.map_nil, List.mem_cons, List.not_mem_nil,
    or_false] at h
  rcases h with rfl | rfl | rfl | rfl
  · exact ⟨literals "j", 's', by decide, by decide⟩
  · exact ⟨literals "mj", 's', by decide, by decide⟩
  · exact ⟨literals "js", 'x', by decide, by decide⟩
  · exact ⟨literals "js.flo", 'w', by decide, by decide⟩

/-- **A pattern that ends in the `endingGroup`** has no expansion with another ending. -/
theorem expansions_of_group {cs : List Char} (hcs : '\\' ∉ cs) {glob : Glob}
    (h : Glob.parse false (String.ofList (cs ++ endingGroup)) = .ok glob) :
    ∀ ts ∈ glob.expansions, ∃ front c, c ∈ endingLetters ∧ ts = front ++ [.literal c] := by
  unfold Glob.parse at h
  rw [String.toList_ofList] at h
  split at h
  · cases h
  · cases h
  · next b hb =>
    obtain ⟨before', open', b', hb'⟩ := parseFrom_append separate_endingGroup hcs hb
    rw [parseFrom_endingGroup] at hb'
    obtain ⟨-, rfl⟩ := Prod.mk.inj (Except.ok.inj hb')
    rw [if_neg (by simp [Branch.pushGroup])] at h
    cases h
    intro ts hts
    obtain ⟨front, hfront, rfl⟩ := List.mem_map.1 hts
    obtain ⟨outer, -, hchoice⟩ := List.mem_flatMap.1 hfront
    obtain ⟨choice, hc, rfl⟩ := List.mem_map.1 hchoice
    obtain ⟨front', c, hmem, rfl⟩ := exists_of_mem_endings hc
    exact ⟨outer ++ front', c, hmem, by simp [Branch.pushGroup]⟩

/-! ## Rules -/

theorem endingGroup_eq : ∃ inner, endingGroup = inner ++ ['\x7d'] :=
  ⟨endingGroup.dropLast, by decide⟩

theorem trimLine_of_group (cs : List Char) :
    IgnoreRule.trimLine (cs ++ endingGroup) = cs ++ endingGroup := by
  obtain ⟨inner, hinner⟩ := endingGroup_eq
  have hblank : Text.isBlank '\x7d' = false := by decide
  simp [IgnoreRule.trimLine, hinner, hblank]

theorem stripDirSlash_of_group (cs : List Char) :
    IgnoreRule.stripDirSlash (cs ++ endingGroup) = (false, cs ++ endingGroup) := by
  obtain ⟨inner, hinner⟩ := endingGroup_eq
  simp [IgnoreRule.stripDirSlash, hinner]

/-- The marks of a line take at most two characters off its front, so that its pattern ends in the
`endingGroup`. -/
theorem pattern_of_group {cs : List Char} (hcs : '\\' ∉ cs) (hlen : 2 ≤ cs.length) :
    ∃ front, (IgnoreRule.marks (cs ++ endingGroup)).pattern = front ++ endingGroup ∧
      front <:+ cs := by
  obtain ⟨x, y, cs, rfl⟩ : ∃ x y rest, cs = x :: y :: rest := by
    match cs, hlen with
    | x :: y :: rest, _ => exact ⟨x, y, rest, rfl⟩
  have hx : x ≠ '\\' := by
    rintro rfl
    exact hcs List.mem_cons_self
  have hmarks : (IgnoreRule.marks (x :: y :: cs ++ endingGroup)).pattern =
      if x = '!' then (if y = '/' then cs ++ endingGroup else y :: cs ++ endingGroup)
      else if x = '/' then y :: cs ++ endingGroup else x :: y :: cs ++ endingGroup := by
    unfold IgnoreRule.marks
    split
    · next he => exact absurd (List.cons.inj he).1 hx
    · next he => exact absurd (List.cons.inj he).1 hx
    · have h1 := stripDirSlash_of_group cs
      have h2 := stripDirSlash_of_group (y :: cs)
      have h3 := stripDirSlash_of_group (x :: y :: cs)
      simp only [List.cons_append] at h2 h3
      by_cases hbang : x = '!'
      · by_cases hy : y = '/' <;> simp [hbang, hy, h1, h2]
      · by_cases hslash : x = '/' <;> simp [hbang, hslash, h2, h3]
  rw [hmarks]
  split
  · split
    · exact ⟨cs, rfl, (List.suffix_cons y cs).trans (List.suffix_cons x _)⟩
    · exact ⟨y :: cs, rfl, List.suffix_cons x _⟩
  · split
    · exact ⟨y :: cs, rfl, List.suffix_cons x _⟩
    · exact ⟨x :: y :: cs, rfl, List.suffix_rfl⟩

theorem fullPattern_of_group {m : IgnoreRule.Marks} {cs : List Char}
    (h : m.pattern = cs ++ endingGroup) :
    ∃ front, IgnoreRule.fullPattern m = front ++ endingGroup ∧
      (front = cs ∨ front = '*' :: '*' :: '/' :: cs) := by
  obtain ⟨inner, hinner⟩ := endingGroup_eq
  have hnot : ∀ front : List Char, (front ++ endingGroup).reverse.take 3 ≠ ['*', '*', '/'] := by
    intro front
    simp [hinner]
  unfold IgnoreRule.fullPattern
  rw [h]
  dsimp only
  split
  · rw [if_neg (hnot cs)]
    exact ⟨cs, rfl, .inl rfl⟩
  · have hanywhere := hnot ('*' :: '*' :: '/' :: cs)
    rw [List.cons_append, List.cons_append, List.cons_append] at hanywhere
    rw [if_neg hanywhere]
    exact ⟨'*' :: '*' :: '/' :: cs, rfl, .inr rfl⟩

/-- What a `line` that holds a rule is read as. -/
theorem exists_glob_of_parse {lenient : Bool} {line : String} {rule : IgnoreRule}
    (h : IgnoreRule.parse lenient line = .ok (some rule)) :
    IgnoreRule.trimLine line.toList ≠ [] ∧
      rule.negated = (IgnoreRule.marks (IgnoreRule.trimLine line.toList)).negated ∧
      Glob.parse lenient (String.ofList (IgnoreRule.fullPattern
        (IgnoreRule.marks (IgnoreRule.trimLine line.toList)))) = .ok rule.glob := by
  unfold IgnoreRule.parse at h
  split at h
  · cases h
  · dsimp only at h
    split at h
    · cases h
    · next hne =>
      split at h
      · next glob hglob =>
        cases h
        exact ⟨hne, rfl, hglob⟩
      · cases h

/-- **The `rule` of a line that ends in the `endingGroup`** matches no path with another ending. -/
theorem rule_of_group {cs : List Char} (hcs : '\\' ∉ cs) (hlen : 2 ≤ cs.length) {rule : IgnoreRule}
    (h : IgnoreRule.parse false (String.ofList (cs ++ endingGroup)) = .ok (some rule)) :
    ∀ ts ∈ rule.glob.expansions, ∃ front c, c ∈ endingLetters ∧ ts = front ++ [.literal c] := by
  obtain ⟨-, -, hglob⟩ := exists_glob_of_parse h
  obtain ⟨front, hfront, hsuffix⟩ := pattern_of_group hcs hlen
  obtain ⟨full, hfull, hcases⟩ := fullPattern_of_group hfront
  rw [String.toList_ofList, trimLine_of_group, hfull] at hglob
  refine expansions_of_group (fun hm => ?_) hglob
  have hnot : '\\' ∉ front := fun hm => hcs (hsuffix.mem hm)
  rcases hcases with rfl | rfl
  · exact hnot hm
  · simp [hnot] at hm

theorem negated_of_bang {text : String} {rule : IgnoreRule}
    (h : IgnoreRule.parse false ("!" ++ text) = .ok (some rule)) : rule.negated = true := by
  obtain ⟨hne, hneg, -⟩ := exists_glob_of_parse h
  have hline : ("!" ++ text).toList = '!' :: text.toList := by
    rw [String.toList_append]
    rfl
  rw [hline] at hne hneg
  obtain ⟨rest, hrest⟩ : ∃ rest, IgnoreRule.trimLine ('!' :: text.toList) = '!' :: rest := by
    have hprefix : IgnoreRule.trimLine ('!' :: text.toList) <+: '!' :: text.toList := by
      unfold IgnoreRule.trimLine
      split
      · exact List.prefix_rfl
      · have hsuffix := List.dropWhile_suffix Text.isBlank (l := ('!' :: text.toList).reverse)
        simpa using List.reverse_prefix.2 hsuffix
    cases ht : IgnoreRule.trimLine ('!' :: text.toList) with
    | nil => exact absurd ht hne
    | cons c rest =>
      rw [ht] at hprefix
      rw [(List.cons_prefix_cons.1 hprefix).1]
      exact ⟨rest, rfl⟩
  rw [hneg, hrest]
  simp [IgnoreRule.marks]

/-! ## Paths that are taken in -/

/-- **The rules of a `scope`** are that of its sources and negated ones. -/
theorem rules_cases {scope : PackageScope} {rules : List IgnoreRule} (h : scope.rules = .ok rules)
    {rule : IgnoreRule} (hr : rule ∈ rules) :
    IgnoreRule.parse false scope.sources = .ok (some rule) ∨ rule.negated = true := by
  unfold PackageScope.rules at h
  obtain ⟨first, hfirst, h⟩ := bind_eq_ok_iff.1 h
  obtain ⟨others, hothers, h⟩ := bind_eq_ok_iff.1 h
  cases h
  obtain ⟨found, hmem, rfl⟩ := List.mem_filterMap.1 hr
  rcases List.mem_cons.1 hmem with rfl | hmem
  · exact .inl (mapError_eq_ok_iff.1 hfirst)
  · obtain ⟨ignore, -, hignore⟩ := mem_of_mapM_ok hothers hmem
    exact .inr (negated_of_bang (mapError_eq_ok_iff.1 hignore))

/-- The rule that takes a `path` in. -/
theorem exists_rule_of_takesIn {rules : List IgnoreRule} {root path : String}
    (h : takesIn rules root path = true) :
    ∃ rule ∈ rules, rule.negated = false ∧ rule.glob.matches (belowRoot root path) = true := by
  unfold takesIn IgnoreRule.decide at h
  split at h
  · next rule hfind =>
    have hmem := List.mem_reverse.1 (List.mem_of_find?_eq_some hfind)
    have happlies := List.find?_some hfind
    unfold IgnoreRule.applies at happlies
    refine ⟨rule, hmem, ?_, (Bool.and_eq_true_iff.1 happlies).2⟩
    unfold IgnoreRule.verdict at h
    cases hn : rule.negated
    · rfl
    · simp [hn] at h
  · simp at h

/-- **The last letter** of a path that is taken in is one of the `endingLetters`. -/
theorem ending_of_takesIn {scope : PackageScope} {cs : List Char} (hcs : '\\' ∉ cs)
    (hlen : 2 ≤ cs.length) (hsources : scope.sources = String.ofList (cs ++ endingGroup))
    {rules : List IgnoreRule} (hrules : scope.rules = .ok rules) {root path : String}
    (h : takesIn rules root path = true) :
    ∃ c ∈ endingLetters, bytes c.toString <:+ bytes (belowRoot root path) := by
  obtain ⟨rule, hmem, hneg, hmatch⟩ := exists_rule_of_takesIn h
  rcases rules_cases hrules hmem with hparse | hneg'
  · rw [hsources] at hparse
    obtain ⟨ts, hts, hm⟩ := List.any_eq_true.1 hmatch
    obtain ⟨front, c, hc, rfl⟩ := rule_of_group hcs hlen hparse ts hts
    exact ⟨c, hc, suffix_of_matches_literal hm⟩
  · rw [hneg] at hneg'
    cases hneg'

/-! ## Paths of source files -/

/-- The characters that no source file ends in, as far as they matter here. -/
def otherLetters : List Char := ['n', '/', '.', '\\']

theorem belowRoot_suffix (root path : String) : (belowRoot root path).toList <:+ path.toList := by
  unfold belowRoot
  dsimp only
  split
  · split
    · next more hdrop =>
      rw [String.toList_ofList]
      exact (List.suffix_cons '/' more).trans (hdrop ▸ List.drop_suffix _ _)
    · rw [String.toList_ofList]
      exact List.drop_suffix _ _
  · exact List.suffix_rfl

/-- **The last character** of a path that is taken in is none of the `otherLetters`. -/
theorem getLast?_of_takesIn {scope : PackageScope} {cs : List Char} (hcs : '\\' ∉ cs)
    (hlen : 2 ≤ cs.length) (hsources : scope.sources = String.ofList (cs ++ endingGroup))
    {rules : List IgnoreRule} (hrules : scope.rules = .ok rules) {root path : String}
    (h : takesIn rules root path = true) :
    ∃ front d, path.toList = front ++ [d] ∧ d ∉ otherLetters := by
  obtain ⟨c, hc, hbytes⟩ := ending_of_takesIn hcs hlen hsources hrules h
  have hdiff : ∀ c ∈ endingLetters, ∀ d ∈ otherLetters,
      (bytes d.toString).getLast? ≠ (bytes c.toString).getLast? := by
    intro c hc d hd
    simp only [endingLetters, List.mem_cons, List.not_mem_nil, or_false] at hc
    simp only [otherLetters, List.mem_cons, List.not_mem_nil, or_false] at hd
    rw [bytes_eq, bytes_eq]
    rcases hc with rfl | rfl | rfl <;> rcases hd with rfl | rfl | rfl | rfl <;> decide
  obtain ⟨front, hsuffix⟩ := belowRoot_suffix root path
  rcases List.eq_nil_or_concat (belowRoot root path).toList with hnil | ⟨init, d, hd⟩
  · have hne := (getLast?_of_bytes hbytes (hdiff c hc 'n' (by decide))).1
    exact absurd (String.toList_eq_nil_iff.1 hnil) hne
  · rw [List.concat_eq_append] at hd
    refine ⟨front ++ init, d, by rw [← hsuffix, hd, List.append_assoc], fun hmem => ?_⟩
    refine (getLast?_of_bytes hbytes (hdiff c hc d hmem)).2 ?_
    rw [hd, List.getLast?_concat]

end FlowMigration.PackageScope
