import FlowMigration.Proofs.Text.Ways
import FlowMigration.Source.TextScan

/-!
# Specifiers that the text scan finds

What stands around a specifier that one of the patterns captures, and that all captures are told.

* `Find`: a specifier between quotes, with what leads to it and what follows it.
* `comes_find`: the ways of a pattern around a specifier are finds.
* `mem_captures_of_fits`: a find is captured if those that reach it from the front capture the same.
* `mem_specifiers`: every capture is among the specifiers, although of two at one place only one is.
-/

namespace FlowMigration.TextScan

open Text Pattern

/-! ## Texts and their first characters -/

/-- Two ways to cut a text in front of its first character that passes the `test` are one. -/
theorem eq_of_first {test : Char → Prop} {xs ys as bs : List Char} {c d : Char}
    (h : xs ++ c :: as = ys ++ d :: bs) (hxs : ∀ x ∈ xs, ¬ test x) (hys : ∀ y ∈ ys, ¬ test y)
    (hc : test c) (hd : test d) : xs = ys ∧ c = d ∧ as = bs := by
  induction xs generalizing ys with
  | nil =>
    cases ys with
    | nil => exact ⟨rfl, List.cons.inj h⟩
    | cons y ys =>
      obtain ⟨rfl, -⟩ := List.cons.inj h
      exact absurd hc (hys c List.mem_cons_self)
  | cons x xs ih =>
    cases ys with
    | nil =>
      obtain ⟨rfl, -⟩ := List.cons.inj h
      exact absurd hd (hxs x List.mem_cons_self)
    | cons y ys =>
      obtain ⟨rfl, hrest⟩ := List.cons.inj h
      obtain ⟨rfl, rest⟩ := ih hrest (List.forall_mem_cons.1 hxs).2 (List.forall_mem_cons.1 hys).2
      exact ⟨rfl, rest⟩

/-- A text `ys` without characters that pass the `test` ends in front of the first one. -/
theorem exists_append_of_first {test : Char → Prop} {xs ys as bs : List Char} {c : Char}
    (h : xs ++ c :: as = ys ++ bs) (hc : test c) (hys : ∀ y ∈ ys, ¬ test y) :
    ∃ zs, xs = ys ++ zs ∧ bs = zs ++ c :: as := by
  obtain ⟨zs, hx, hb⟩ | ⟨zs, hy, hc'⟩ := List.append_eq_append_iff.1 h.symm
  · exact ⟨zs, hx, hb⟩
  · cases zs with
    | nil =>
      rw [List.nil_append] at hc'
      exact ⟨[], by rw [hy, List.append_nil, List.append_nil], hc'.symm⟩
    | cons z zs =>
      obtain ⟨rfl, -⟩ := List.cons.inj hc'
      exact absurd hc (hys c (hy ▸ List.mem_append_right xs List.mem_cons_self))

/-! ## Finds -/

/-- A character `c` of a specifier. -/
def isSpecifierPart (c : Char) : Bool := !isQuote c && c != '\n'

/-- A specifier between quotes, what leads to it and what follows it. -/
structure Find where
  lead : List Char
  opening : Char
  specifier : List Char
  closing : Char
  back : List Char
  after : List Char

namespace Find

variable {f : Find} {leads backs : List Pattern}

/-- What follows the opening quote of the find `f`. -/
def tail (f : Find) : List Char := f.specifier ++ f.closing :: (f.back ++ f.after)

def text (f : Find) : List Char := f.lead ++ f.opening :: f.tail

/-- How much of the text the find `f` is. -/
def size (f : Find) : Nat := f.lead.length + f.specifier.length + 2 + f.back.length

/-- The match of the find `f` at a place. -/
def found (f : Find) (place : Place) : Match :=
  ⟨place.skip f.size, some (place.offset + f.lead.length + 1, f.specifier)⟩

/-- The find is one of the patterns `leads`, a specifier and the patterns `backs`. -/
structure Fits (f : Find) (leads backs : List Pattern) : Prop where
  lead : (sequence leads).Takes f.lead
  opening : isQuote f.opening = true
  specifier_ne_nil : f.specifier ≠ []
  parts : ∀ c ∈ f.specifier, isSpecifierPart c = true
  closing : isQuote f.closing = true
  back : (sequence backs).Takes f.back

theorem not_isQuote_of_part {c : Char} (h : isSpecifierPart c = true) : ¬ isQuote c = true := by
  simp only [isSpecifierPart, Bool.and_eq_true, Bool.not_eq_true'] at h
  exact Bool.not_eq_true _ ▸ h.1

theorem ne_newline_of_part {c : Char} (h : isSpecifierPart c = true) : c ≠ '\n' := by
  simp only [isSpecifierPart, Bool.and_eq_true] at h
  exact bne_iff_ne.1 h.2

/-- What is captured depends on the place alone: the specifier of `f` goes up to the next quote or
line end. -/
theorem Fits.takeWhile_tail (h : f.Fits leads backs) :
    f.tail.takeWhile isSpecifierPart = f.specifier := by
  have hclosing : isSpecifierPart f.closing = false := by
    simp [isSpecifierPart, h.closing]
  rw [tail, List.takeWhile_append_of_pos h.parts, List.takeWhile_cons_of_neg (by simp [hclosing]),
    List.append_nil]

theorem Fits.takeWhile_drop (h : f.Fits leads backs) (before : List Char) :
    ((before ++ f.text).drop (before.length + f.lead.length + 1)).takeWhile isSpecifierPart =
      f.specifier := by
  have htext : before ++ f.text = (before ++ f.lead ++ [f.opening]) ++ f.tail := by
    simp [text]
  rw [htext, List.drop_left' (by simp [Nat.add_assoc]), h.takeWhile_tail]

end Find

/-- The ways of a specifier between quotes. -/
theorem comes_specifier {m m' : Match} :
    specifier.Comes m m' ↔ ∃ opening cs closing rest,
      m.place.rest = opening :: (cs ++ closing :: rest) ∧ isQuote opening = true ∧ cs ≠ [] ∧
        (∀ c ∈ cs, isSpecifierPart c = true) ∧ isQuote closing = true ∧
        m' = ⟨m.place.skip (cs.length + 2), some (m.place.offset + 1, cs)⟩ := by
  have hplain : (some1 true fun c => !isQuote c && c != '\n').IsPlain = true := rfl
  have hplace (n : Nat) : ((m.place.skip 1).skip n).skip 1 = m.place.skip (n + 2) := by
    rw [Place.skip_skip, Place.skip_skip, Nat.add_comm 1]
  simp only [specifier, comes_sequence_cons, comes_sequence_nil, comes_capture hplain, takes_some1]
  constructor
  · rintro ⟨_, ⟨opening, rest, hrest, ho, rfl⟩, _, ⟨cs, rest', ⟨hne, hparts⟩, hcs, rfl⟩,
      _, ⟨closing, rest'', hrest', hc, rfl⟩, rfl⟩
    have hone : (m.skip 1).place.rest = rest := by simp [Match.skip, Place.skip, hrest]
    rw [hone] at hcs
    have htwo : ((m.skip 1).place.skip cs.length).rest = rest' := by
      simp [Match.skip, Place.skip, hrest, hcs]
    refine ⟨opening, cs, closing, rest'', ?_, ho, hne, hparts, hc, ?_⟩
    · rw [hrest, hcs, ← htwo, hrest']
    · simp only [Match.skip, hplace]
      rfl
  · rintro ⟨opening, cs, closing, rest, hrest, ho, hne, hparts, hc, rfl⟩
    have hone : (m.skip 1).place.rest = cs ++ closing :: rest := by
      simp [Match.skip, Place.skip, hrest]
    refine ⟨_, ⟨opening, _, hrest, ho, rfl⟩, _, ⟨cs, _, ⟨hne, hparts⟩, hone, rfl⟩, _,
      ⟨closing, rest, ?_, hc, rfl⟩, ?_⟩
    · simp [Match.skip, Place.skip, hrest]
    · simp only [Match.skip, hplace]
      rfl

/-- **The ways of patterns around a `specifier`** are finds. -/
theorem comes_find {leads backs : List Pattern} (hleads : (sequence leads).IsPlain = true)
    (hbacks : (sequence backs).IsPlain = true) {m m' : Match} :
    (sequence (leads ++ specifier :: backs)).Comes m m' ↔
      ∃ f : Find, f.Fits leads backs ∧ m.place.rest = f.text ∧ m' = f.found m.place := by
  have hplace (f : Find) : ((m.place.skip f.lead.length).skip (f.specifier.length + 2)).skip
      f.back.length = m.place.skip f.size := by
    simp only [Place.skip_skip, Find.size, Nat.add_assoc]
  simp only [comes_sequence_append, comes_sequence_cons, comes_specifier,
    comes_iff hleads, comes_iff hbacks]
  constructor
  · rintro ⟨_, ⟨lead, rest, hlead, hrest, rfl⟩, _,
      ⟨opening, cs, closing, rest', hrest', ho, hne, hparts, hc, rfl⟩, back, after, hback, hafter,
      rfl⟩
    let f : Find := ⟨lead, opening, cs, closing, back, after⟩
    rw [Match.rest_skip_append hrest] at hrest'
    have hend : rest' = back ++ after := by
      rw [← hafter]
      simp [Match.skip, Place.skip, hrest, hrest']
    refine ⟨f, ⟨hlead, ho, hne, hparts, hc, hback⟩, ?_, ?_⟩
    · rw [hrest, hrest', hend]
      rfl
    · rw [Find.found, ← hplace f]
      rfl
  · rintro ⟨f, hf, hrest, rfl⟩
    refine ⟨_, ⟨f.lead, f.opening :: f.tail, hf.lead, hrest, rfl⟩, _, ⟨f.opening, f.specifier,
      f.closing, f.back ++ f.after, ?_, hf.opening, hf.specifier_ne_nil, hf.parts, hf.closing, rfl⟩,
      f.back, f.after, hf.back, ?_, ?_⟩
    · rw [Match.rest_skip_append hrest]
      rfl
    · simp [Match.skip, Place.skip, hrest, Find.text, Find.tail]
    · rw [Find.found, ← hplace f]
      rfl

/-! ## What is captured -/

theorem comes_edge {edge : Pattern} (hedge : edge = .lineStart ∨ edge = .wordEdge) {m m' : Match} :
    edge.Comes m m' ↔ edge.Comes m m ∧ m' = m := by
  obtain rfl | rfl := hedge <;> simp [Comes]

/-- Whether the text behind `before` is where `edge` asks for. -/
def Stands (edge : Pattern) (before rest : List Char) : Prop :=
  edge.Comes ⟨.behind before rest, none⟩ ⟨.behind before rest, none⟩

section

variable {edge : Pattern} {leads backs : List Pattern} {before : List Char}

theorem comes_find_behind (hedge : edge = .lineStart ∨ edge = .wordEdge)
    (hleads : (sequence leads).IsPlain = true) (hbacks : (sequence backs).IsPlain = true)
    {rest : List Char} {m : Match} :
    (sequence (edge :: (leads ++ specifier :: backs))).Comes ⟨.behind before rest, none⟩ m ↔
      Stands edge before rest ∧
        ∃ f : Find, f.Fits leads backs ∧ rest = f.text ∧ m = f.found (.behind before rest) := by
  rw [comes_sequence_cons]
  constructor
  · rintro ⟨_, he, hm⟩
    obtain ⟨hstands, rfl⟩ := (comes_edge hedge).1 he
    exact ⟨hstands, (comes_find hleads hbacks).1 hm⟩
  · rintro ⟨hstands, hm⟩
    exact ⟨_, hstands, (comes_find hleads hbacks).2 hm⟩

/-- **A find `f` is captured** if the finds that begin no later and reach it have their quote at its
place. -/
theorem mem_captures_of_fits (hedge : edge = .lineStart ∨ edge = .wordEdge)
    (hleads : (sequence leads).IsPlain = true) (hbacks : (sequence backs).IsPlain = true)
    {f : Find} (hf : f.Fits leads backs) (hstands : Stands edge before f.text)
    (hsame : ∀ (front gap : List Char) (g : Find), before = front ++ gap → g.Fits leads backs →
      Stands edge front g.text → gap ++ f.text = g.text → gap.length < g.size →
        gap.length + f.lead.length = g.lead.length) :
    (before.length + f.lead.length + 1, f.specifier) ∈
      captures (sequence (edge :: (leads ++ specifier :: backs))) (before ++ f.text) := by
  obtain ⟨front, gap, rfl, m, hm, hcomes, hover⟩ := exists_mem_of_comes
    ((comes_find_behind hedge hleads hbacks).2 ⟨hstands, f, hf, rfl, rfl⟩)
  obtain ⟨hfront, g, hg, htext, rfl⟩ := (comes_find_behind hedge hleads hbacks).1 hcomes
  have hsize : gap.length < g.size := by
    by_cases hgap : gap = []
    · rw [hgap, Find.size, List.length_nil]
      omega
    · have := hover hgap
      simp only [Find.found, Place.skip, Place.behind, List.length_append] at this
      omega
  have hplace := hsame front gap g rfl hg (htext ▸ hfront) htext hsize
  refine List.mem_filterMap.2 ⟨_, hm, ?_⟩
  have hoffset : front.length + g.lead.length + 1 =
      (front ++ gap).length + f.lead.length + 1 := by
    rw [List.length_append]
    omega
  have hspecifier : g.specifier = f.specifier := by
    rw [← hf.takeWhile_drop (front ++ gap), ← hg.takeWhile_drop front, hoffset, ← htext,
      List.append_assoc]
  simp only [Find.found, Place.behind, hoffset, hspecifier]

/-- **What is captured** is a find that fits. -/
theorem exists_find_of_mem_captures (hedge : edge = .lineStart ∨ edge = .wordEdge)
    (hleads : (sequence leads).IsPlain = true) (hbacks : (sequence backs).IsPlain = true)
    {text : List Char} {x : Nat × List Char}
    (h : x ∈ captures (sequence (edge :: (leads ++ specifier :: backs))) text) :
    ∃ (before : List Char) (f : Find), f.Fits leads backs ∧ text = before ++ f.text ∧
      x = (before.length + f.lead.length + 1, f.specifier) := by
  obtain ⟨m, hm, hx⟩ := List.mem_filterMap.1 h
  obtain ⟨before, rest, rfl, hcomes⟩ := exists_comes_of_mem hm
  obtain ⟨-, f, hf, rfl, rfl⟩ := (comes_find_behind hedge hleads hbacks).1 hcomes
  simp only [Find.found, Option.some.injEq] at hx
  exact ⟨before, f, hf, rfl, hx.symm⟩

end

/-! ## The patterns of the text scan -/

/-- What leads to the specifier of an import declaration, from the start of its line on. -/
def importLeads : List Pattern :=
  [.many true isLineBlank, word "import", blanks1,
    .optional (.seq (.alt (word "type") (word "typeof")) blanks1),
    .optional (sequence [some1 false isClausePart, blanks1, word "from", Pattern.blanks])]

/-- A new name for all that is exported. -/
def exportAlias : Pattern :=
  .optional (sequence [blanks1, word "as", blanks1, some1 true fun c => isWordPart c || c == '$'])

/-- A list of names in braces. -/
def exportList : Pattern := sequence [word "\x7b", .many true (· != '\x7d'), word "\x7d"]

/-- What leads to the specifier of a re-export, from the start of its line on. -/
def exportLeads : List Pattern :=
  [.many true isLineBlank, word "export", blanks1, .optional (.seq (word "type") blanks1),
    .alt (.seq (word "*") exportAlias) exportList, Pattern.blanks, word "from", Pattern.blanks]

/-- What leads to the specifier of a call. -/
def callLeads : List Pattern :=
  [.alt (word "require") (word "import"), Pattern.blanks, word "(", Pattern.blanks]

/-- What follows the specifier of a call. -/
def callBacks : List Pattern := [Pattern.blanks, word ")"]

theorem isPlain_importLeads : (sequence importLeads).IsPlain = true := by
  simp [importLeads, IsPlain]

theorem isPlain_exportLeads : (sequence exportLeads).IsPlain = true := by
  simp [exportLeads, exportAlias, exportList, IsPlain]

theorem isPlain_callLeads : (sequence callLeads).IsPlain = true := by simp [callLeads, IsPlain]

theorem isPlain_callBacks : (sequence callBacks).IsPlain = true := by simp [callBacks]

/-! ## All specifiers -/

theorem exists_find_of_mem_all {text : List Char} {x : Nat × List Char}
    (h : x ∈ captures staticImport text ++ captures exportFrom text ++ captures callImport text) :
    ∃ (leads backs : List Pattern) (before : List Char) (f : Find), f.Fits leads backs ∧
      text = before ++ f.text ∧ x = (before.length + f.lead.length + 1, f.specifier) := by
  obtain h | h := List.mem_append.1 h
  · obtain h | h := List.mem_append.1 h
    · exact ⟨_, _, exists_find_of_mem_captures (.inl rfl) isPlain_importLeads rfl h⟩
    · exact ⟨_, _, exists_find_of_mem_captures (.inl rfl) isPlain_exportLeads rfl h⟩
  · exact ⟨_, _, exists_find_of_mem_captures (.inr rfl) isPlain_callLeads isPlain_callBacks h⟩

/-- What is captured, `x`, goes up to the next quote or line end. -/
theorem takeWhile_of_mem_all {text : List Char} {x : Nat × List Char}
    (h : x ∈ captures staticImport text ++ captures exportFrom text ++ captures callImport text) :
    (text.drop x.1).takeWhile isSpecifierPart = x.2 := by
  obtain ⟨leads, backs, before, f, hf, rfl, rfl⟩ := exists_find_of_mem_all h
  exact hf.takeWhile_drop before

theorem mem_dedupOffsets {xs : List (Nat × List Char)} {x : Nat × List Char} (h : x ∈ xs)
    (halone : ∀ y ∈ xs, y.1 = x.1 → y = x) : x ∈ dedupOffsets xs := by
  fun_induction dedupOffsets xs with
  | case1 => exact absurd h List.not_mem_nil
  | case2 y => exact h
  | case3 y z rest heq ih =>
    refine ih ?_ fun w hw => halone w (by grind)
    obtain rfl | h := List.mem_cons.1 h
    · exact List.mem_cons_self
    · obtain rfl | h := List.mem_cons.1 h
      · rw [halone y List.mem_cons_self heq]
        exact List.mem_cons_self
      · exact List.mem_cons_of_mem _ h
  | case4 y z rest hne ih =>
    obtain rfl | h := List.mem_cons.1 h
    · exact List.mem_cons_self
    · exact List.mem_cons_of_mem _ (ih h fun w hw => halone w (List.mem_cons_of_mem _ hw))

/-- **Every capture `x` is told**: of captures at one place one stays, and they are all alike. -/
theorem mem_specifiers {text : List Char} {x : Nat × List Char}
    (h : x ∈ captures staticImport text ++ captures exportFrom text ++ captures callImport text) :
    x ∈ specifiers text := by
  refine mem_dedupOffsets (List.mem_mergeSort.2 h) fun y hy heq => ?_
  have hy := takeWhile_of_mem_all (List.mem_mergeSort.1 hy)
  have hx := takeWhile_of_mem_all h
  exact Prod.ext heq (by rw [← hy, ← hx, heq])

end FlowMigration.TextScan
