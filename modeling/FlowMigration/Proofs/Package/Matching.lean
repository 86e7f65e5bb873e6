import FlowMigration.Proofs.Glob.Plain
import FlowMigration.Proofs.Package.Sources

/-!
# What a package takes in

The rules of a package among names that stand for themselves, and the paths that they take in.

* `parse_negated`, `parse_group`: how the globs of a package read.
* `rules_ofEntry`: the rules of a package.
* `takesIn_iff`: a package takes in the source files inside it that are neither beneath a directory
  of dependencies nor inside an excluded package.
-/

namespace FlowMigration.PackageScope

open Glob

/-! ## Lines of plain patterns -/

/-- A `line` that is kept as a whole and holds a rule. -/
theorem parse_of_marks {lenient : Bool} {line : List Char} (hne : line ≠ [])
    (hhash : line.head? ≠ some '#') (htrim : IgnoreRule.trimLine line = line)
    {m : IgnoreRule.Marks} (hmarks : IgnoreRule.marks line = m) {glob : Glob}
    (h : Glob.parse lenient (String.ofList (IgnoreRule.fullPattern m)) = .ok glob) :
    IgnoreRule.parse lenient (String.ofList line) = .ok (some ⟨glob, m.negated, m.onlyDirs⟩) := by
  rw [IgnoreRule.parse, String.toList_ofList, if_neg hhash, htrim]
  dsimp only
  rw [if_neg hne, hmarks, h]

/-- **A line that begins with a bang** and is about what is inside of `front`. -/
theorem parse_negated {lenient : Bool} {front : List Char} (hne : front ≠ [])
    (hslash : front.head? ≠ some '/') {glob : Glob}
    (h : Glob.parse lenient (String.ofList (inside front)) = .ok glob) :
    IgnoreRule.parse lenient (String.ofList ('!' :: (front ++ ['/', '*', '*']))) =
      .ok (some ⟨glob, true, false⟩) := by
  have htrim : IgnoreRule.trimLine ('!' :: (front ++ ['/', '*', '*'])) =
      '!' :: (front ++ ['/', '*', '*']) := by
    have hblank : Text.isBlank '*' = false := by decide
    simp [IgnoreRule.trimLine, hblank]
  have hmarks : IgnoreRule.marks ('!' :: (front ++ ['/', '*', '*'])) =
      ⟨true, false, false, front ++ ['/', '*', '*']⟩ := by
    obtain ⟨c, front, rfl⟩ := List.exists_cons_of_ne_nil hne
    have hc : c ≠ '/' := fun he => hslash (by rw [he]; rfl)
    simp [IgnoreRule.marks, IgnoreRule.stripDirSlash, hc]
  have hfull : IgnoreRule.fullPattern ⟨true, false, false, front ++ ['/', '*', '*']⟩ =
      inside front := by
    simp [IgnoreRule.fullPattern, inside]
  rw [← hfull] at h
  exact parse_of_marks (List.cons_ne_nil _ _) (by simp) htrim hmarks h

/-- **A line that ends in the `endingGroup`** and goes through a directory. -/
theorem parse_group {cs : List Char} (hslash : '/' ∈ cs)
    (hhead : ∀ c ∈ cs.head?, c ≠ '!' ∧ c ≠ '#' ∧ c ≠ '/' ∧ c ≠ '\\') {glob : Glob}
    (h : Glob.parse false (String.ofList (cs ++ endingGroup)) = .ok glob) :
    IgnoreRule.parse false (String.ofList (cs ++ endingGroup)) =
      .ok (some ⟨glob, false, false⟩) := by
  obtain ⟨c, rest, rfl⟩ := List.exists_cons_of_ne_nil (List.ne_nil_of_mem hslash)
  obtain ⟨hbang, hhash, hfirst, hback⟩ := hhead c rfl
  have hstrip := stripDirSlash_of_group (c :: rest)
  rw [List.cons_append] at hstrip
  have hmarks : IgnoreRule.marks (c :: rest ++ endingGroup) =
      ⟨false, false, false, c :: rest ++ endingGroup⟩ := by
    rw [List.cons_append, IgnoreRule.marks]
    · simp [hbang, hfirst, hstrip]
    · exact fun more he => hback (List.cons.inj he).1
    · exact fun more he => hback (List.cons.inj he).1
  have hnot : (c :: rest ++ endingGroup).reverse.take 3 ≠ ['*', '*', '/'] := by
    obtain ⟨inner, hinner⟩ := endingGroup_eq
    simp [hinner]
  have hfull : IgnoreRule.fullPattern ⟨false, false, false, c :: rest ++ endingGroup⟩ =
      c :: rest ++ endingGroup := by
    have hcontains : (c :: rest ++ endingGroup).contains '/' = true :=
      List.contains_iff_mem.2 (List.mem_append_left _ hslash)
    simp only [IgnoreRule.fullPattern, hcontains, Bool.or_true, Bool.true_or, if_true, if_neg hnot]
  have hne : c :: rest ++ endingGroup ≠ [] := by simp
  have hfirst' : (c :: rest ++ endingGroup).head? ≠ some '#' := by simpa using hhash
  rw [← hfull] at h
  exact parse_of_marks hne hfirst' (trimLine_of_group (c :: rest)) hmarks h

/-! ## The rules of a package -/

/-- Names of directories that rules read as themselves: every one of `parts` is literal. -/
structure LiteralNames (parts : List String) : Prop where
  names : ∀ n ∈ parts, Path.IsName n
  literal : ∀ n ∈ parts, Literal n.toList

/-- A path of `parts` that does not begin with the mark of a negated rule or of a comment. -/
def Unmarked (parts : List String) : Prop :=
  ∀ n ∈ parts.head?, n.toList.head? ≠ some '!' ∧ n.toList.head? ≠ some '#'

instance (parts : List String) : Decidable (LiteralNames parts) :=
  decidable_of_iff ((∀ n ∈ parts, Path.IsName n) ∧ ∀ n ∈ parts, Literal n.toList)
    ⟨fun ⟨h₁, h₂⟩ => ⟨h₁, h₂⟩, fun ⟨h₁, h₂⟩ => ⟨h₁, h₂⟩⟩

instance (parts : List String) : Decidable (Unmarked parts) :=
  inferInstanceAs (Decidable (∀ n ∈ parts.head?, _))

namespace LiteralNames

variable {parts : List String}

theorem slashless (h : LiteralNames parts) : Slashless parts := fun n hn => (h.names n hn).no_slash

theorem literal_ofSegments (h : LiteralNames parts) : Literal (Path.ofSegments parts).toList := by
  intro c hc
  rw [Path.toList_ofSegments] at hc
  rcases Path.mem_unpieces hc with rfl | ⟨p, hp, hc⟩
  · decide
  · obtain ⟨n, hn, rfl⟩ := List.mem_map.1 hp
    exact h.literal n hn c hc

theorem head_ofSegments (h : LiteralNames parts) (hne : parts ≠ []) :
    ∃ c rest, (Path.ofSegments parts).toList = c :: rest ∧ c ≠ '/' ∧ c ≠ '\\' ∧
      (Unmarked parts → c ≠ '!' ∧ c ≠ '#') := by
  obtain ⟨name, more, rfl⟩ := List.exists_cons_of_ne_nil hne
  have hname := h.names name List.mem_cons_self
  have hliteral := h.literal name List.mem_cons_self
  have hslash := hname.no_slash
  cases hcs : name.toList with
  | nil => exact absurd (String.toList_eq_nil_iff.1 hcs) hname.ne_empty
  | cons c cs =>
    rw [hcs] at hslash hliteral
    have hhead : ∃ rest, (Path.ofSegments (name :: more)).toList = c :: rest := by
      by_cases hmore : more = []
      · rw [hmore, Path.toList_ofSegments, List.map_singleton, Path.unpieces, hcs]
        exact ⟨_, rfl⟩
      · rw [Path.ofSegments_cons hmore, hcs]
        exact ⟨_, rfl⟩
    obtain ⟨rest, hrest⟩ := hhead
    refine ⟨c, rest, hrest, fun he => hslash (by rw [he]; exact List.mem_cons_self),
      fun he => hliteral c List.mem_cons_self (by rw [he]; decide), fun hmark => ?_⟩
    obtain ⟨hbang, hhash⟩ := hmark name rfl
    rw [hcs] at hbang hhash
    exact ⟨fun he => hbang (by rw [he]; rfl), fun he => hhash (by rw [he]; rfl)⟩

end LiteralNames

/-- Names of directories that stand for themselves in rules, wherever they come in `parts`. -/
structure PlainNames (parts : List String) : Prop where
  names : ∀ n ∈ parts, Path.IsName n
  plain : ∀ n ∈ parts, Plain n.toList
  unmarked : ∀ n ∈ parts, n.toList.head? ≠ some '!' ∧ n.toList.head? ≠ some '#'

namespace PlainNames

variable {parts : List String}

theorem literalNames (h : PlainNames parts) : LiteralNames parts :=
  ⟨h.names, fun n hn => (h.plain n hn).literal⟩

theorem unmarked_head (h : PlainNames parts) : Unmarked parts :=
  fun n hn => h.unmarked n (List.mem_of_mem_head? hn)

end PlainNames

/-- The tokens of the files inside the directory `dirs`, by the `ending` of their names. -/
def insideTokens (dirs : List String) (ending : String) : List GlobToken :=
  (Path.ofSegments dirs).toList.map .literal ++ .innerDirs :: nameTokens ending

/-- The tokens of the sources of the package at `parts`. -/
def sourceTokens (parts : List String) (extension : String) : List GlobToken :=
  if parts = [] then .leadingDirs :: nameTokens ("." ++ extension)
  else insideTokens parts ("." ++ extension)

/-- The rule of the sources of the package at `parts`. -/
def sourceRule (parts : List String) : IgnoreRule :=
  ⟨⟨sourceExtensions.map (sourceTokens parts)⟩, false, false⟩

/-- The rule that leaves out what is beneath directories of dependencies. -/
def dependencyRule : IgnoreRule :=
  ⟨⟨[.leadingDirs :: insideTokens [Manifest.dependencyDir] ""]⟩, true, false⟩

/-- The rule that leaves out the nested package at `parts`. -/
def excludeRule (parts : List String) : IgnoreRule :=
  ⟨⟨[insideTokens parts ""]⟩, true, false⟩

theorem parse_exclude {parts : List String} (h : LiteralNames parts) (hne : parts ≠ []) :
    IgnoreRule.parse false ("!" ++ (Path.ofSegments parts ++ "/**")) =
      .ok (some (excludeRule parts)) := by
  obtain ⟨c, rest, hcs, hslash, -, -⟩ := h.head_ofSegments hne
  have htext : "!" ++ (Path.ofSegments parts ++ "/**") =
      String.ofList ('!' :: ((Path.ofSegments parts).toList ++ ['/', '*', '*'])) := by
    apply String.toList_injective
    simp
  have hglob : Glob.parse false (String.ofList (inside (Path.ofSegments parts).toList)) =
      .ok (excludeRule parts).glob := parse_inside h.literal_ofSegments
  rw [htext]
  exact parse_negated (by simp [hcs]) (by simpa [hcs] using hslash) hglob

theorem parse_dependency :
    IgnoreRule.parse false ("!" ++ "**/node_modules/**") = .ok (some dependencyRule) := by
  have htext : "!" ++ "**/node_modules/**" =
      String.ofList ('!' :: ("**/node_modules".toList ++ ['/', '*', '*'])) := by decide
  have hinside : inside "**/node_modules".toList =
      '*' :: '*' :: '/' :: inside (Path.ofSegments [Manifest.dependencyDir]).toList := by decide
  rw [htext]
  refine parse_negated (by decide) (by decide) ?_
  rw [hinside]
  exact parse_beneath (by decide)

theorem parse_sources {text : List Char} (h : Literal text) :
    Glob.parse false (String.ofList (inside text ++ '.' :: endingGroup)) =
      .ok ⟨sourceExtensions.map fun e =>
        text.map .literal ++ .innerDirs :: nameTokens ("." ++ e)⟩ := by
  rw [Glob.parse, String.toList_ofList, parseFrom_inside h (by decide),
    parseFrom_cons_literal (by decide), parseFrom_endingGroup]
  simp [Branch.pushGroup, Branch.expansions, Branch.push, nameTokens, literals,
    String.toList_append]

theorem parse_sources_root :
    Glob.parse false (String.ofList ('*' :: '*' :: '/' :: '*' :: '.' :: endingGroup)) =
      .ok ⟨sourceExtensions.map fun e => .leadingDirs :: nameTokens ("." ++ e)⟩ := by
  have hstar : ∀ more, '.' :: endingGroup ≠ '*' :: more := by
    intro more he
    exact absurd (List.cons.inj he).1 (by decide)
  rw [Glob.parse, String.toList_ofList, parseFrom_leading, parseFrom.eq_4 _ _ _ _ _ _ hstar,
    parseFrom_cons_literal (by decide), parseFrom_endingGroup]
  simp [Branch.pushGroup, Branch.expansions, Branch.push, nameTokens, literals,
    String.toList_append]

theorem parse_source {parts : List String} (h : LiteralNames parts) (hmark : Unmarked parts) :
    IgnoreRule.parse false (if parts.isEmpty then defaultSources
      else Path.ofSegments parts ++ "/" ++ defaultSources) = .ok (some (sourceRule parts)) := by
  have hdefault : defaultSources.toList = ['*', '*', '/', '*', '.'] ++ endingGroup := by decide
  by_cases hparts : parts = []
  · subst hparts
    have hglob : Glob.parse false (String.ofList (['*', '*', '/', '*', '.'] ++ endingGroup)) =
        .ok (sourceRule []).glob := parse_sources_root
    have htext : defaultSources = String.ofList (['*', '*', '/', '*', '.'] ++ endingGroup) := by
      rw [← hdefault, String.ofList_toList]
    rw [if_pos List.isEmpty_nil, htext]
    exact parse_group (by decide) (by simp) hglob
  · obtain ⟨c, rest, hcs, hslash, hback, hmarks⟩ := h.head_ofSegments hparts
    obtain ⟨hbang, hhash⟩ := hmarks hmark
    have hglob : Glob.parse false (String.ofList
        ((inside (Path.ofSegments parts).toList ++ ['.']) ++ endingGroup)) =
          .ok (sourceRule parts).glob := by
      have htokens : sourceTokens parts = fun e => insideTokens parts ("." ++ e) := by
        funext e
        rw [sourceTokens, if_neg hparts]
      rw [List.append_assoc, List.singleton_append, parse_sources h.literal_ofSegments, sourceRule,
        htokens]
      rfl
    have htext : Path.ofSegments parts ++ "/" ++ defaultSources =
        String.ofList ((inside (Path.ofSegments parts).toList ++ ['.']) ++ endingGroup) := by
      apply String.toList_injective
      rw [String.toList_append, String.toList_append, hdefault, String.toList_ofList]
      simp [inside]
    rw [if_neg (by simpa using hparts), htext]
    refine parse_group (by simp [inside]) (fun d hd => ?_) hglob
    rw [inside, hcs] at hd
    obtain rfl := Option.some.inj hd
    exact ⟨hbang, hhash, hslash, hback⟩

/-- The rules of a package whose nested packages have `LiteralNames`, from what its sources read
as. -/
theorem rules_of_parse {entry : TopologyEntry} {sources : String}
    (hexcludes : ∀ x ∈ entry.excludes, LiteralNames x ∧ x ≠ []) {first : Option IgnoreRule}
    (h : IgnoreRule.parse false (ofEntry entry sources).sources = .ok first) :
    (ofEntry entry sources).rules =
      .ok (first.toList ++ dependencyRule :: entry.excludes.map excludeRule) := by
  have hignores : (ofEntry entry sources).ignores.mapM (fun ignore =>
      (IgnoreRule.parse false ("!" ++ ignore)).mapError (Failure.ignoreGlob ignore)) =
        .ok (some dependencyRule :: entry.excludes.map fun x => some (excludeRule x)) := by
    have hrest : (entry.excludes.map fun x => Path.ofSegments x ++ "/**").mapM (fun ignore =>
        (IgnoreRule.parse false ("!" ++ ignore)).mapError (Failure.ignoreGlob ignore)) =
          .ok (entry.excludes.map fun x => some (excludeRule x)) := by
      rw [List.mapM_map, mapM_eq_ok_iff, List.forall₂_map_right_iff, List.forall₂_same]
      intro x hx
      obtain ⟨hliteral, hne⟩ := hexcludes x hx
      exact mapError_eq_ok_iff.2 (parse_exclude hliteral hne)
    have hall : (ofEntry entry sources).ignores =
        "**/node_modules/**" :: entry.excludes.map fun x => Path.ofSegments x ++ "/**" := by
      simp only [ofEntry, defaultIgnores, TopologyEntry.excludePaths, List.map_map,
        List.singleton_append, Function.comp_def]
    rw [hall, List.mapM_cons, hrest, parse_dependency]
    rfl
  have hsome : (first :: some dependencyRule :: entry.excludes.map fun x =>
      some (excludeRule x)).filterMap id =
        first.toList ++ dependencyRule :: entry.excludes.map excludeRule := by
    cases first <;> simp
  unfold rules
  rw [h, hignores, ← hsome]
  rfl

/-- **The rules of the package of `entry`** among literal names: `sourceRule`, and those for what it
leaves out. -/
theorem rules_ofEntry {entry : TopologyEntry} (h : LiteralNames entry.parts)
    (hmark : Unmarked entry.parts) (hexcludes : ∀ x ∈ entry.excludes, LiteralNames x ∧ x ≠ []) :
    (ofEntry entry defaultSources).rules =
      .ok (sourceRule entry.parts :: dependencyRule :: entry.excludes.map excludeRule) :=
  rules_of_parse hexcludes (parse_source h hmark)

/-! ## Paths that are taken in -/

/-- The `name` of a source file: it ends in a dot and one of the endings. -/
def IsSource (name : String) : Prop :=
  ∃ extension ∈ sourceExtensions, bytes ("." ++ extension) <:+ bytes name

instance (name : String) : Decidable (IsSource name) :=
  inferInstanceAs (Decidable (∃ extension ∈ sourceExtensions, _))

theorem not_isSource_manifest : ¬IsSource Manifest.fileName := by
  unfold IsSource
  decide +kernel

theorem slash_not_mem_extension {extension : String} (h : extension ∈ sourceExtensions) :
    '/' ∉ ("." ++ extension).toList := by
  revert extension
  decide

section
variable {names : List String} (hn : Slashless names) (hne : names ≠ [])
include hn

theorem sourceRule_matches {parts : List String} (hparts : Slashless parts) :
    (sourceRule parts).glob.matches (Path.ofSegments names) = true ↔
      parts <+: names.dropLast ∧ IsSource (names.getLast hne) := by
  have htokens : ∀ extension ∈ sourceExtensions,
      (matchTokens (sourceTokens parts extension) (bytes (Path.ofSegments names)) = true ↔
        parts <+: names.dropLast ∧ bytes ("." ++ extension) <:+ bytes (names.getLast hne)) := by
    intro extension hext
    have hslash := slash_not_mem_extension hext
    unfold sourceTokens
    split
    · next hnil =>
      rw [matchTokens_anywhere hslash hn hne, hnil]
      exact ⟨fun h => ⟨List.nil_prefix, h⟩, fun h => h.2⟩
    · next hcons => exact matchTokens_inside hslash hcons hparts hn hne
  simp only [sourceRule, Glob.matches, List.any_map, List.any_eq_true, Function.comp_apply]
  constructor
  · rintro ⟨extension, hext, hm⟩
    obtain ⟨hin, hends⟩ := (htokens extension hext).1 hm
    exact ⟨hin, extension, hext, hends⟩
  · rintro ⟨hin, extension, hext, hends⟩
    exact ⟨extension, hext, (htokens extension hext).2 ⟨hin, hends⟩⟩

include hne

theorem dependencyRule_matches :
    dependencyRule.glob.matches (Path.ofSegments names) = true ↔
      Manifest.dependencyDir ∈ names.dropLast := by
  have h := matchTokens_beneath (show '/' ∉ Manifest.dependencyDir.toList by decide) hn hne
  have hone : Path.ofSegments [Manifest.dependencyDir] = Manifest.dependencyDir := by decide
  simp only [dependencyRule, Glob.matches, insideTokens, hone, List.any_cons, List.any_nil,
    Bool.or_false]
  exact h

theorem excludeRule_matches {parts : List String} (hparts : Slashless parts) (hcons : parts ≠ []) :
    (excludeRule parts).glob.matches (Path.ofSegments names) = true ↔
      parts <+: names.dropLast := by
  have h := matchTokens_inside (show '/' ∉ "".toList by decide) hcons hparts hn hne
  have hempty : bytes "" = [] := by simp [bytes_eq]
  simp only [excludeRule, Glob.matches, insideTokens, List.any_cons, List.any_nil, Bool.or_false]
  rw [h, hempty]
  exact and_iff_left List.nil_suffix

end

/-- The text of a path below the directory `base` that it is written from. -/
theorem belowRoot_joinAll {base : String} {names : List String} (hb : base ≠ "") (hne : names ≠ [])
    (h : ∀ n ∈ names, Path.IsName n) :
    belowRoot base (Path.joinAll base names) = Path.ofSegments names := by
  obtain ⟨name, more, rfl⟩ := List.exists_cons_of_ne_nil hne
  have habs : Path.isAbsolute (Path.ofSegments (name :: more)) = false :=
    Path.not_absolute_ofSegments (h name List.mem_cons_self)
  have hhead : (Path.ofSegments (name :: more)).toList.head? ≠ some '/' := by
    simpa [Path.isAbsolute] using habs
  have htext : (Path.joinAll base (name :: more)).toList =
      Path.closed base ++ (Path.ofSegments (name :: more)).toList := by
    rw [Path.joinAll_eq_join hb hne h, Path.toList_join hb habs]
  have hdrop : ∃ rest, (Path.joinAll base (name :: more)).toList = base.toList ++ rest ∧
      (rest = (Path.ofSegments (name :: more)).toList ∨
        rest = '/' :: (Path.ofSegments (name :: more)).toList) := by
    rw [htext, Path.closed]
    split
    · exact ⟨_, rfl, .inl rfl⟩
    · exact ⟨_, List.append_assoc _ _ _, .inr rfl⟩
  obtain ⟨rest, hrest, hcases⟩ := hdrop
  have hprefix : base.toList.isPrefixOf (base.toList ++ rest) = true :=
    List.isPrefixOf_iff_prefix.2 (List.prefix_append _ _)
  have hleft : (base.toList ++ rest).drop base.length = rest := by
    rw [← String.length_toList, List.drop_left]
  unfold belowRoot
  dsimp only
  rw [hrest, if_pos hprefix, hleft]
  rcases hcases with rfl | rfl
  · split
    · next more' he =>
      rw [he] at hhead
      exact absurd rfl hhead
    · rw [String.ofList_toList]
  · exact String.ofList_toList

/-- A rule `first` with negated ones after it. -/
theorem decide_of_negated {first : IgnoreRule} {others : List IgnoreRule}
    (hfirst : first.negated = false) (hothers : ∀ r ∈ others, r.negated = true) (path : String)
    (isDir : Bool) :
    IgnoreRule.decide (first :: others) path isDir = .ignored ↔
      first.applies path isDir = true ∧ ∀ r ∈ others, r.applies path isDir = false := by
  rw [IgnoreRule.decide, List.reverse_cons, List.find?_append]
  cases hfind : others.reverse.find? fun rule => rule.applies path isDir with
  | some rule =>
    have hmem := List.mem_reverse.1 (List.mem_of_find?_eq_some hfind)
    have happlies : rule.applies path isDir = true := by simpa using List.find?_some hfind
    rw [Option.some_or]
    constructor
    · intro hv
      simp [IgnoreRule.verdict, hothers rule hmem] at hv
    · rintro ⟨-, hnone⟩
      rw [hnone rule hmem] at happlies
      cases happlies
  | none =>
    have hnone : ∀ r ∈ others, r.applies path isDir = false := fun r hr => by
      simpa using List.find?_eq_none.1 hfind r (List.mem_reverse.2 hr)
    rw [Option.none_or, List.find?_singleton]
    cases happlies : first.applies path isDir with
    | true => exact ⟨fun _ => ⟨rfl, hnone⟩, fun _ => by simp [IgnoreRule.verdict, hfirst]⟩
    | false => simp

/-- What a rule `first` for the sources of a package takes in, next to those for what it leaves
out. -/
theorem decide_of_first {first : Option IgnoreRule} {others : List IgnoreRule}
    (hfirst : ∀ rule ∈ first, rule.negated = false) (hothers : ∀ r ∈ others, r.negated = true)
    (path : String) (isDir : Bool) :
    IgnoreRule.decide (first.toList ++ others) path isDir = .ignored ↔
      first.any (·.applies path isDir) = true ∧ ∀ r ∈ others, r.applies path isDir = false := by
  cases first with
  | some rule => exact decide_of_negated (hfirst rule rfl) hothers path isDir
  | none =>
    simp only [Option.toList_none, List.nil_append, Option.any_none, Bool.false_eq_true, false_and,
      iff_false]
    unfold IgnoreRule.decide
    split
    · next rule hfind =>
      have hmem := List.mem_reverse.1 (List.mem_of_find?_eq_some hfind)
      simp [IgnoreRule.verdict, hothers rule hmem]
    · nofun

/-- A package takes in what the rule `first` for its sources is about, as far as it is neither
beneath a directory of dependencies nor inside one of the `excludes`. -/
theorem takesIn_iff_of_first {excludes : List (List String)}
    (hexcludes : ∀ x ∈ excludes, LiteralNames x ∧ x ≠ []) {first : Option IgnoreRule}
    (hfirst : ∀ rule ∈ first, rule.negated = false) {root : String} (hroot : root ≠ "")
    {names : List String} (hne : names ≠ []) (hnames : ∀ n ∈ names, Path.IsName n) :
    takesIn (first.toList ++ dependencyRule :: excludes.map excludeRule) root
        (Path.joinAll root names) = true ↔
      first.any (·.applies (Path.ofSegments names) false) = true ∧
        Manifest.dependencyDir ∉ names.dropLast ∧ ∀ x ∈ excludes, ¬x <+: names.dropLast := by
  have hn : Slashless names := fun n hmem => (hnames n hmem).no_slash
  have happlies : ∀ rule : IgnoreRule, rule.onlyDirs = false →
      rule.applies (Path.ofSegments names) false = rule.glob.matches (Path.ofSegments names) := by
    intro rule hdirs
    rw [IgnoreRule.applies, hdirs]
    rfl
  have hnegated : ∀ r ∈ dependencyRule :: excludes.map excludeRule, r.negated = true := by
    intro r hr
    rcases List.mem_cons.1 hr with rfl | hr
    · rfl
    · obtain ⟨x, -, rfl⟩ := List.mem_map.1 hr
      rfl
  rw [takesIn, belowRoot_joinAll hroot hne hnames, decide_eq_true_iff,
    decide_of_first hfirst hnegated, List.forall_mem_cons, happlies _ rfl, Bool.eq_false_iff, Ne,
    dependencyRule_matches hn hne, List.forall_mem_map]
  refine and_congr_right fun _ => and_congr_right fun _ => forall₂_congr fun x hx => ?_
  obtain ⟨hliteral, hcons⟩ := hexcludes x hx
  rw [happlies _ rfl, Bool.eq_false_iff, Ne, excludeRule_matches hn hne hliteral.slashless hcons]

/-- **The package of `entry` takes in** the source files inside it that are neither beneath a
directory of dependencies nor inside one of its `excludes`. -/
theorem takesIn_iff {entry : TopologyEntry} (h : LiteralNames entry.parts)
    (hmark : Unmarked entry.parts) (hexcludes : ∀ x ∈ entry.excludes, LiteralNames x ∧ x ≠ [])
    {rules : List IgnoreRule} (hrules : (ofEntry entry defaultSources).rules = .ok rules)
    {root : String} (hroot : root ≠ "") {names : List String} (hne : names ≠ [])
    (hnames : ∀ n ∈ names, Path.IsName n) :
    takesIn rules root (Path.joinAll root names) = true ↔
      entry.parts <+: names.dropLast ∧ IsSource (names.getLast hne) ∧
        Manifest.dependencyDir ∉ names.dropLast ∧ ∀ x ∈ entry.excludes, ¬x <+: names.dropLast := by
  have hn : Slashless names := fun n hmem => (hnames n hmem).no_slash
  have hfirst : ∀ rule ∈ some (sourceRule entry.parts), rule.negated = false := by
    rintro rule ⟨⟩
    rfl
  have htakes := takesIn_iff_of_first hexcludes hfirst hroot hne hnames
  rw [rules_ofEntry h hmark hexcludes] at hrules
  obtain rfl := Except.ok.inj hrules
  rw [Option.any_some] at htakes
  have happlies : (sourceRule entry.parts).applies (Path.ofSegments names) false =
      (sourceRule entry.parts).glob.matches (Path.ofSegments names) := rfl
  rw [happlies, sourceRule_matches hn hne h.slashless, and_assoc] at htakes
  exact htakes

end FlowMigration.PackageScope
