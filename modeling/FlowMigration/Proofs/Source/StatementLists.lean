import FlowMigration.Proofs.Source.Order
import FlowMigration.Proofs.Source.Statements
import Mathlib.Data.List.Infix
import Mathlib.Data.List.Sort

/-!
# Lists of statements

A text with one import, re-export or call on a line each, and other lines without quotes and without
the words that ask for a module. The text scan finds the specifiers of the statements and nothing
else.

* `Line`: the lines of such a text; `joined` is the text.
* `not_inExportList_endedLines`: no list that is exported is open where a line begins.
* `mem_places_of_quoted`: two quotes with a text between them are those of one statement.
* `imports_of_lines`: the imports are the specifiers of the statements.
-/

namespace FlowMigration.TextScan

open Text Pattern

/-! ## Lines -/

/-- A line `text` without quotes and without the words that ask for a module. -/
structure IsFiller (text : String) : Prop where
  parts : ∀ c ∈ text.toList, isSpecifierPart c = true
  wordless : ∀ word ∈ ["import", "export", "require"], ¬ word.toList <:+: text.toList

instance (text : String) : Decidable (IsFiller text) :=
  decidable_of_iff (text.toList.all isSpecifierPart = true ∧
      ∀ word ∈ ["import", "export", "require"], ¬ word.toList <:+: text.toList)
    ⟨fun ⟨hparts, hwordless⟩ => ⟨List.all_eq_true.1 hparts, hwordless⟩,
      fun h => ⟨List.all_eq_true.2 h.parts, h.wordless⟩⟩

inductive Line where
  | filler (text : String)
  | statement (s : Statement)
deriving DecidableEq, Repr

namespace Line

def text : Line → String
  | .filler text => text
  | .statement s => s.text

def WellFormed : Line → Prop
  | .filler text => IsFiller text
  | .statement s => s.WellFormed

instance : (line : Line) → Decidable line.WellFormed
  | .filler text => inferInstanceAs (Decidable (IsFiller text))
  | .statement s => inferInstanceAs (Decidable s.WellFormed)

/-- The module that a `Line` asks for. -/
def specifier? : Line → Option String
  | .filler _ => none
  | .statement s => some s.specifier

end Line

/-- The `lines`, one behind the other. -/
def joined (lines : List Line) : String := "\n".intercalate (lines.map Line.text)

/-! ## Ended lines -/

/-- The `lines`, each with its end. -/
def endedLines (lines : List Line) : List Char :=
  lines.flatMap fun line => line.text.toList ++ ['\n']

theorem endedLines_cons (line : Line) (lines : List Line) :
    endedLines (line :: lines) = line.text.toList ++ '\n' :: endedLines lines := by
  rw [endedLines, List.flatMap_cons, List.append_assoc, List.singleton_append, endedLines]

theorem startsLine_endedLines (lines : List Line) : StartsLine (endedLines lines) := by
  rcases List.eq_nil_or_concat lines with rfl | ⟨front, last, rfl⟩
  · exact .inl rfl
  · right
    simp [endedLines, List.getLast?_append]

namespace Line

variable {line : Line}

theorem newline_not_mem_text (h : line.WellFormed) : '\n' ∉ line.text.toList := by
  cases line with
  | filler text => exact fun hmem => Find.ne_newline_of_part (h.parts _ hmem) rfl
  | statement s => exact Statement.newline_not_mem_text h

/-- No `line` leaves a list of names open that is exported. -/
theorem not_opens_list (h : line.WellFormed) {indent words names rest : List Char}
    (hindent : ∀ c ∈ indent, isLineBlank c = true) (hwords : ExportWords words)
    (hnames : '\x7d' ∉ names) :
    indent ++ (words ++ '\x7b' :: names) ≠ line.text.toList ++ '\n' :: rest := by
  intro heq
  cases line with
  | filler content =>
    -- the keyword would stand in the line
    obtain ⟨more, rfl⟩ := hwords.exists_append
    have hends : ∀ c ∈ indent ++ "export".toList, ¬ c = '\n' := by
      rw [List.forall_mem_append]
      exact ⟨fun c hc hend => absurd (hindent c hc) (by rw [hend]; decide),
        fun c hc hend => absurd (hend ▸ hc) (by decide)⟩
    have hcontent : content.toList ++ '\n' :: rest =
        (indent ++ "export".toList) ++ (more ++ '\x7b' :: names) := by
      simpa [text] using heq.symm
    obtain ⟨zs, hzs, -⟩ := @exists_append_of_first (· = '\n') _ _ _ _ _ hcontent rfl hends
    exact h.wordless "export" (by decide) ⟨indent, zs, hzs.symm⟩
  | statement s =>
    obtain ⟨c, cs, hfront, hc, -⟩ := s.form.exists_front
    obtain ⟨more, hmore⟩ := hwords.exists_append
    have htext : s.text.toList ++ '\n' :: rest = s.indent.toList ++ (s.form.front.toList ++
        (s.quote :: (s.specifier.toList ++ s.quote :: s.tail.toList) ++ '\n' :: rest)) := by
      simp [Statement.toList_text, Statement.lead]
    rw [text, htext] at heq
    have hrest : words ++ '\x7b' :: names = s.form.front.toList ++
        (s.quote :: (s.specifier.toList ++ s.quote :: s.tail.toList) ++ '\n' :: rest) := by
      rw [hmore, hfront] at heq ⊢
      obtain ⟨-, hkeyword, hrest⟩ := @eq_of_first (isLineBlank · = false) _ _ _ _ _ _ heq
        (fun c hc => by simp [hindent c hc]) (fun c hc => by simp [h.indent c hc]) (by decide) hc
      exact congrArg₂ List.cons hkeyword hrest
    exact Form.not_opens_list h.identifiers hwords hnames hrest

end Line

/-- **No list is open** behind `lines` that are `WellFormed`. -/
theorem not_inExportList_endedLines {lines : List Line} (h : ∀ line ∈ lines, line.WellFormed) :
    ¬ InExportList (endedLines lines) := by
  induction lines with
  | nil =>
    rintro ⟨front, words, names, heq, -⟩
    exact absurd heq (by simp [endedLines])
  | cons line lines ih =>
    obtain ⟨hline, hlines⟩ := List.forall_mem_cons.1 h
    rintro ⟨_, words, names, heq, ⟨above, indent, rfl, habove, hindent⟩, hwords, hnames⟩
    rw [endedLines_cons, List.append_assoc] at heq
    by_cases hnil : above = []
    · rw [hnil, List.nil_append] at heq
      exact Line.not_opens_list hline hindent hwords hnames heq.symm
    · have hend : '\n' ∈ above := by
        obtain hnone | hsome := habove
        · exact absurd (List.getLast?_eq_none_iff.1 hnone) hnil
        · exact List.mem_of_getLast? hsome
      obtain ⟨zs, rfl, hmore⟩ : ∃ zs, above = line.text.toList ++ '\n' :: zs ∧
          endedLines lines = zs ++ (indent ++ (words ++ '\x7b' :: names)) := by
        obtain ⟨_ | ⟨z, zs⟩, habs, hmore⟩ | ⟨zs, htext, -⟩ := List.append_eq_append_iff.1 heq
        · rw [List.append_nil] at habs
          exact absurd (habs ▸ hend) (Line.newline_not_mem_text hline)
        · obtain ⟨rfl, hrest⟩ := List.cons.inj hmore
          exact ⟨zs, habs, hrest⟩
        · exact absurd (htext ▸ List.mem_append_left zs hend) (Line.newline_not_mem_text hline)
      have hzs : StartsLine ((line.text.toList ++ ['\n']) ++ zs) := by
        rwa [List.append_assoc, List.singleton_append]
      exact ih hlines ⟨zs ++ indent, words, names, by rw [hmore, List.append_assoc],
        ⟨zs, indent, rfl, hzs.of_append, hindent⟩, hwords, hnames⟩

/-! ## Nothing else is found -/

/-- Of two quotes in a text each is where it is. -/
theorem eq_of_two_quotes {lead specifier tail before specifier' after : List Char}
    {q q' opening closing : Char}
    (heq : lead ++ q :: (specifier ++ q' :: tail) =
      before ++ opening :: (specifier' ++ closing :: after))
    (hlead : ∀ c ∈ lead, ¬ isQuote c = true) (hspecifier : ∀ c ∈ specifier, ¬ isQuote c = true)
    (htail : ∀ c ∈ tail, ¬ isQuote c = true) (hq : isQuote q = true) (hq' : isQuote q' = true)
    (hopening : isQuote opening = true) (hclosing : isQuote closing = true) :
    before = lead ∧ specifier' = specifier := by
  have hcount := congrArg (List.countP isQuote) heq
  simp only [List.countP_append, List.countP_cons, List.countP_eq_zero.2 hlead,
    List.countP_eq_zero.2 hspecifier, List.countP_eq_zero.2 htail, hq, hq', hopening, hclosing,
    if_true] at hcount
  have hbefore : ∀ c ∈ before, ¬ isQuote c = true := List.countP_eq_zero.1 (by omega)
  have hspecifier' : ∀ c ∈ specifier', ¬ isQuote c = true := List.countP_eq_zero.1 (by omega)
  obtain ⟨rfl, -, hrest⟩ := eq_of_first heq hlead hbefore hq hopening
  exact ⟨rfl, (eq_of_first hrest hspecifier hspecifier' hq' hclosing).1.symm⟩

/-- The specifiers of lines that begin at an offset, with their offsets. -/
def places : Nat → List Line → List (Nat × List Char)
  | _, [] => []
  | offset, .filler content :: lines => places (offset + content.toList.length + 1) lines
  | offset, .statement s :: lines =>
    (offset + s.lead.toList.length + 1, s.specifier.toList) ::
      places (offset + s.text.toList.length + 1) lines

theorem map_places (offset : Nat) (lines : List Line) :
    (places offset lines).map (fun x => String.ofList x.2) = lines.filterMap Line.specifier? := by
  fun_induction places offset lines with
  | case1 => rfl
  | case2 offset content lines ih => rw [ih, List.filterMap_cons_none rfl]
  | case3 offset s lines ih =>
    rw [List.map_cons, ih, String.ofList_toList]
    rfl

theorem lt_of_mem_places {offset : Nat} {lines : List Line} {x : Nat × List Char}
    (h : x ∈ places offset lines) : offset < x.1 := by
  fun_induction places offset lines with
  | case1 => exact absurd h List.not_mem_nil
  | case2 offset content lines ih =>
    have := ih h
    omega
  | case3 offset s lines ih =>
    obtain rfl | h := List.mem_cons.1 h
    · exact Nat.lt_succ_of_le (Nat.le_add_right _ _)
    · have := ih h
      omega

theorem places_increasing (offset : Nat) (lines : List Line) :
    (places offset lines).Pairwise fun x y => x.1 < y.1 := by
  fun_induction places offset lines with
  | case1 => exact .nil
  | case2 offset content lines ih => exact ih
  | case3 offset s lines ih =>
    refine List.pairwise_cons.2 ⟨fun x hx => ?_, ih⟩
    have hlt := lt_of_mem_places hx
    rw [Statement.toList_text, List.length_append] at hlt
    simp only
    omega

/-- At each of the `places` a statement stands. -/
theorem exists_statement_of_mem_places {offset : Nat} {lines : List Line} {x : Nat × List Char}
    (h : x ∈ places offset lines) : ∃ above s below, lines = above ++ .statement s :: below ∧
      x = (offset + (endedLines above).length + s.lead.toList.length + 1, s.specifier.toList) := by
  fun_induction places offset lines with
  | case1 => exact absurd h List.not_mem_nil
  | case2 offset content lines ih =>
    obtain ⟨above, s, below, rfl, rfl⟩ := ih h
    refine ⟨.filler content :: above, s, below, rfl, ?_⟩
    rw [endedLines_cons, Line.text]
    simp
    omega
  | case3 offset s lines ih =>
    obtain rfl | h := List.mem_cons.1 h
    · exact ⟨[], s, lines, rfl, rfl⟩
    · obtain ⟨above, s', below, rfl, rfl⟩ := ih h
      refine ⟨.statement s :: above, s', below, rfl, ?_⟩
      rw [endedLines_cons, Line.text]
      simp
      omega

/-- Two quotes with a text between them are on one line: the first one, called `line`, or one behind
it. -/
theorem quoted_in_line {line rest before specifier after : List Char} {opening closing : Char}
    (heq : line ++ '\n' :: rest = before ++ opening :: (specifier ++ closing :: after))
    (hopening : isQuote opening = true) (hparts : ∀ c ∈ specifier, isSpecifierPart c = true)
    (hclosing : isQuote closing = true) :
    (∃ behind, before = line ++ '\n' :: behind ∧
      rest = behind ++ opening :: (specifier ++ closing :: after)) ∨
    ∃ tail, line = before ++ opening :: (specifier ++ closing :: tail) := by
  have hnewline {quote : Char} (hquote : isQuote quote = true) : quote ≠ '\n' := by
    rintro rfl
    exact absurd hquote (by decide)
  have hends : ∀ c ∈ specifier ++ [closing], ¬ c = '\n' :=
    List.forall_mem_append.2 ⟨fun c hc => Find.ne_newline_of_part (hparts c hc),
      List.forall_mem_singleton.2 (hnewline hclosing)⟩
  obtain ⟨_ | ⟨z, zs⟩, hbefore, hrest⟩ | ⟨_ | ⟨z, zs⟩, hline, hrest⟩ :=
    List.append_eq_append_iff.1 heq
  · exact absurd (List.cons.inj hrest).1.symm (hnewline hopening)
  · obtain ⟨rfl, hbehind⟩ := List.cons.inj hrest
    exact .inl ⟨zs, hbefore, hbehind⟩
  · exact absurd (List.cons.inj hrest).1 (hnewline hopening)
  · obtain ⟨rfl, hbehind⟩ := List.cons.inj hrest
    have hzs : zs ++ '\n' :: rest = (specifier ++ [closing]) ++ after := by
      rw [List.append_assoc, List.singleton_append]
      exact hbehind.symm
    obtain ⟨tail, rfl, -⟩ := @exists_append_of_first (· = '\n') _ _ _ _ _ hzs rfl hends
    exact .inr ⟨tail, by rw [hline, List.append_assoc, List.singleton_append]⟩

/-- **Two quotes with a text between them** are those of a statement, at one of the `places`. -/
theorem mem_places_of_quoted {lines : List Line} (h : ∀ line ∈ lines, line.WellFormed)
    {offset : Nat} {before specifier after : List Char} {opening closing : Char}
    (heq : endedLines lines = before ++ opening :: (specifier ++ closing :: after))
    (hopening : isQuote opening = true) (hparts : ∀ c ∈ specifier, isSpecifierPart c = true)
    (hclosing : isQuote closing = true) :
    (offset + before.length + 1, specifier) ∈ places offset lines := by
  induction lines generalizing offset before with
  | nil => exact absurd heq (by simp [endedLines])
  | cons line lines ih =>
    obtain ⟨hline, hlines⟩ := List.forall_mem_cons.1 h
    rw [endedLines_cons] at heq
    obtain ⟨behind, rfl, hbehind⟩ | ⟨tail, htail⟩ := quoted_in_line heq hopening hparts hclosing
    · have hmem : (offset + line.text.toList.length + 1 + behind.length + 1, specifier) ∈
          places (offset + line.text.toList.length + 1) lines := ih hlines hbehind
      have hlength : offset + line.text.toList.length + 1 + behind.length + 1 =
          offset + (line.text.toList ++ '\n' :: behind).length + 1 := by
        rw [List.length_append, List.length_cons]
        omega
      rw [hlength] at hmem
      cases line with
      | filler content => exact hmem
      | statement s => exact List.mem_cons_of_mem _ hmem
    · cases line with
      | filler content =>
        have hpart := hline.parts opening (htail ▸ by simp)
        exact absurd hopening (Find.not_isQuote_of_part hpart)
      | statement s =>
        have hunquoted {cs : List Char} (hcs : ∀ c ∈ cs, isSpecifierPart c = true) :
            ∀ c ∈ cs, ¬ isQuote c = true := fun c hc => Find.not_isQuote_of_part (hcs c hc)
        rw [Line.text, Statement.toList_text] at htail
        obtain ⟨rfl, rfl⟩ := eq_of_two_quotes htail (hunquoted (Statement.parts_lead hline))
          (hunquoted hline.parts) (hunquoted (Statement.parts_tail s)) hline.quote hline.quote
          hopening hclosing
        exact List.mem_cons_self

/-! ## Joined lines -/

theorem toList_joined_cons (line : Line) {lines : List Line} (h : lines ≠ []) :
    (joined (line :: lines)).toList = line.text.toList ++ '\n' :: (joined lines).toList := by
  obtain ⟨next, more, rfl⟩ := List.exists_cons_of_ne_nil h
  rw [joined, joined, String.toList_intercalate, String.toList_intercalate, List.map_cons,
    List.map_cons, List.map_cons, List.map_cons, List.intercalate_cons_cons]
  simp

theorem toList_joined_singleton (line : Line) : (joined [line]).toList = line.text.toList := by
  rw [joined, String.toList_intercalate, List.map_singleton, List.map_singleton,
    List.intercalate_singleton]

theorem toList_joined_ended {lines : List Line} (h : lines ≠ []) :
    (joined lines).toList ++ ['\n'] = endedLines lines := by
  induction lines with
  | nil => exact absurd rfl h
  | cons line lines ih =>
    by_cases hnil : lines = []
    · rw [hnil, toList_joined_singleton, endedLines_cons]
      rfl
    · rw [toList_joined_cons line hnil, endedLines_cons, ← ih hnil, List.append_assoc,
        List.cons_append]

theorem exists_rest_of_joined (above : List Line) (line : Line) (below : List Line) :
    ∃ rest, (joined (above ++ line :: below)).toList =
      endedLines above ++ (line.text.toList ++ rest) := by
  induction above with
  | nil =>
    by_cases hnil : below = []
    · exact ⟨[], by rw [hnil, List.nil_append, toList_joined_singleton]; simp [endedLines]⟩
    · exact ⟨_, by rw [List.nil_append, toList_joined_cons line hnil]; rfl⟩
  | cons first above ih =>
    obtain ⟨rest, hrest⟩ := ih
    refine ⟨rest, ?_⟩
    rw [List.cons_append, toList_joined_cons first (by simp), hrest, endedLines_cons,
      List.append_assoc, List.cons_append]

/-- **The `specifiers` of such lines** are those of the statements, where these stand. -/
theorem specifiers_joined {lines : List Line} (h : ∀ line ∈ lines, line.WellFormed) :
    specifiers (joined lines).toList = places 0 lines := by
  refine (specifiers_increasing _).eq_of_mem_iff (places_increasing 0 lines) fun x => ⟨?_, ?_⟩
  · intro hx
    obtain ⟨opening, closing, hquoted⟩ := isQuoted_of_mem_specifiers hx
    obtain ⟨before, after, hsource, hoffset⟩ := hquoted.stands
    have hne : lines ≠ [] := by
      rintro rfl
      exact absurd hsource (by simp [joined])
    have hended : endedLines lines = before ++ opening :: (x.2 ++ closing :: (after ++ ['\n'])) := by
      rw [← toList_joined_ended hne, hsource]
      simp
    have hmem : (0 + before.length + 1, x.2) ∈ places 0 lines :=
      mem_places_of_quoted h hended hquoted.opening hquoted.parts hquoted.closing
    rwa [Nat.zero_add, ← hoffset] at hmem
  · intro hx
    obtain ⟨above, s, below, rfl, rfl⟩ := exists_statement_of_mem_places hx
    obtain ⟨rest, hrest⟩ := exists_rest_of_joined above (.statement s) below
    obtain ⟨habove, hs⟩ := List.forall_mem_append.1 h
    rw [hrest, Nat.zero_add]
    exact Statement.mem_specifiers (List.forall_mem_cons.1 hs).1 (startsLine_endedLines above)
      (not_inExportList_endedLines habove) rest

/-- **The text scan reads lists of statements**: the imports are the specifiers of the statements
among the `lines` (`specifier?`), in their order and as often as they stand there. -/
theorem imports_of_lines {lines : List Line} (h : ∀ line ∈ lines, line.WellFormed) (path : String) :
    (scan (joined lines) path).imports = lines.filterMap Line.specifier? := by
  rw [scan, specifiers_joined h]
  exact map_places 0 lines

/-- Statements whose names are keywords and whose specifiers look like statements. -/
def misleadingLines : List Line :=
  [.filler "// @flow", .statement { form := .imports (.default "type"), specifier := "a" },
    .statement
      { indent := "\t", form := .exports .all, quote := '"', specifier := "import b from ",
        ended := false },
    .filler "\x7d", .statement { form := .exports (.types ["from", "as"]), specifier := "require(" },
    .statement { indent := "  ", form := .requireCall "require", specifier := ") // import(" },
    .statement { form := .importCall, specifier := "a", ended := false }]

theorem imports_of_lines_misleading :
    (∀ line ∈ misleadingLines, line.WellFormed) ∧
      (scan (joined misleadingLines) "c.js").imports =
        ["a", "import b from ", "require(", ") // import(", "a"] := by
  have h : ∀ line ∈ misleadingLines, line.WellFormed := by decide +kernel
  exact ⟨h, imports_of_lines h "c.js"⟩

end FlowMigration.TextScan
