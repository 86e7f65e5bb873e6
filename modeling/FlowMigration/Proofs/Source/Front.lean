import FlowMigration.Proofs.Source.Comments
import Mathlib.Data.List.TakeWhile

/-!
# The front of a source

What stands in front of the code, said without a reader: the line that names an interpreter, and
comments with blanks in front of them.

* `Pragma.IsComment`, `Pragma.NoComment`: a text begins with a comment, or with none;
  `Pragma.comment?_eq_some`, `Pragma.comment?_eq_none` say that the text scan agrees.
* `Pragma.Cut`: the comments that a text begins with; a text is cut in one way (`Cut.unique`), which
  is that of the text scan (`exists_cut`).
* `Pragma.Carries`: a pragma stands in a text as a word; the first comment with one decides
  (`decide_iff`).
* `Pragma.front_of_source`: the front of a source, and what it says about Flow.
-/

namespace FlowMigration.Pragma

open Text

/-! ## Comments -/

def close : List Char := ['*', '/']

/-- A comment, and a text that may follow it: a comment that begins with two slashes goes up to the
end of its line, any other one up to the first close behind its opening. -/
inductive IsComment : List Char → List Char → Prop
  | line {body after : List Char} : '\n' ∉ body → (∀ c ∈ after.head?, c = '\n') →
      IsComment ('/' :: '/' :: body) after
  | block {body after : List Char} : ¬ close <:+: body ++ ['*'] →
      IsComment ('/' :: '*' :: (body ++ close)) after

/-- The `text` begins neither with two slashes nor with a comment that is closed. -/
structure NoComment (text : List Char) : Prop where
  line : ¬ ['/', '/'] <+: text
  block : ∀ more, text = '/' :: '*' :: more → ¬ close <:+: more

theorem close_infix_cons {c : Char} {text : List Char} :
    close <:+: c :: text ↔ (∃ rest, c = '*' ∧ text = '/' :: rest) ∨ close <:+: text := by
  rw [List.infix_cons_iff]
  refine or_congr_left ⟨?_, ?_⟩
  · rintro ⟨rest, hrest⟩
    obtain ⟨rfl, rfl⟩ := List.cons.inj hrest
    exact ⟨rest, rfl, rfl⟩
  · rintro ⟨rest, rfl, rfl⟩
    exact ⟨rest, rfl⟩

/-- **What is never closed** has no `close`. -/
theorem untilClose_eq_none {text : List Char} : untilClose text = none ↔ ¬ close <:+: text := by
  induction text using untilClose.induct with
  | case1 => simp [untilClose, close]
  | case2 rest =>
    simp only [untilClose, reduceCtorEq, false_iff, not_not]
    exact ⟨[], rest, rfl⟩
  | case3 c rest hne ih =>
    rw [untilClose.eq_3 _ _ hne, Option.map_eq_none_iff, ih, close_infix_cons, not_or]
    refine ⟨fun h => ⟨?_, h⟩, fun h => h.2⟩
    rintro ⟨more, hc, hrest⟩
    exact hne more hc hrest

/-- **Up to the first `close`**: there is none in front of it, nor one that shares its star. -/
theorem untilClose_eq_some {text found rest : List Char} :
    untilClose text = some (found, rest) ↔
      ∃ body, found = body ++ close ∧ text = found ++ rest ∧ ¬ close <:+: body ++ ['*'] := by
  induction text using untilClose.induct generalizing found with
  | case1 =>
    simp only [untilClose, reduceCtorEq, false_iff, not_exists, not_and]
    rintro body rfl htext
    simp [close] at htext
  | case2 more =>
    simp only [untilClose, Option.some.injEq, Prod.mk.injEq]
    constructor
    · rintro ⟨rfl, rfl⟩
      exact ⟨[], rfl, rfl, by decide⟩
    · rintro ⟨body, rfl, htext, hbody⟩
      cases body with
      | nil =>
        obtain rfl : more = rest := by simpa [close] using htext
        exact ⟨rfl, rfl⟩
      | cons b body =>
        -- A longer text would have the close in front of its own.
        refine absurd ?_ hbody
        obtain ⟨rfl, hmore⟩ := List.cons.inj htext
        cases body with
        | nil => simp [close] at hmore
        | cons b' body =>
          obtain ⟨rfl, -⟩ := List.cons.inj hmore
          exact ⟨[], body ++ ['*'], rfl⟩
  | case3 c more hne ih =>
    rw [untilClose.eq_3 _ _ hne, Option.map_eq_some_iff]
    constructor
    · rintro ⟨⟨inner, after⟩, hinner, heq⟩
      obtain ⟨rfl, rfl⟩ := Prod.mk.inj heq
      obtain ⟨body, rfl, rfl, hbody⟩ := ih.1 hinner
      refine ⟨c :: body, rfl, rfl, ?_⟩
      rw [List.cons_append, close_infix_cons]
      rintro (⟨tail, rfl, htail⟩ | hinfix)
      · refine hne ((body ++ close ++ after).drop 1) rfl ?_
        cases body with
        | nil => simp at htail
        | cons b body =>
          obtain ⟨rfl, -⟩ := List.cons.inj htail
          rfl
      · exact hbody hinfix
    · rintro ⟨body, rfl, htext, hbody⟩
      cases body with
      | nil =>
        obtain ⟨rfl, rfl⟩ := List.cons.inj htext
        exact absurd rfl (hne rest rfl)
      | cons b body =>
        obtain ⟨rfl, rfl⟩ := List.cons.inj htext
        rw [List.cons_append, close_infix_cons, not_or] at hbody
        exact ⟨_, ih.2 ⟨body, rfl, rfl, hbody.2⟩, rfl⟩

theorem head?_dropWhile_line (text : List Char) :
    ∀ c ∈ (text.dropWhile (· ≠ '\n')).head?, c = '\n' := by
  intro c hc
  have := List.head?_dropWhile_not (fun c : Char => c ≠ '\n') text
  rw [hc] at this
  simpa using this

/-- A line `body` and what follows it. -/
theorem line_eq {body after : List Char} (hbody : '\n' ∉ body) (hafter : ∀ c ∈ after.head?, c = '\n') :
    (body ++ after).takeWhile (· ≠ '\n') = body ∧ (body ++ after).dropWhile (· ≠ '\n') = after := by
  have hpos : ∀ c ∈ body, Decidable.decide (c ≠ '\n') = true := fun c hc =>
    decide_eq_true fun heq : c = '\n' => hbody (heq ▸ hc)
  rw [List.takeWhile_append_of_pos hpos, List.dropWhile_append_of_pos hpos]
  cases after with
  | nil => exact ⟨List.append_nil body, rfl⟩
  | cons c after =>
    obtain rfl := hafter c rfl
    simp

/-- **The comment that `comment?` finds** is what the text begins with. -/
theorem comment?_eq_some {text comment rest : List Char} :
    comment? text = some (comment, rest) ↔ text = comment ++ rest ∧ IsComment comment rest := by
  constructor
  · intro h
    unfold comment? at h
    split at h
    · next more =>
      simp only [Option.some.injEq, Prod.mk.injEq] at h
      obtain ⟨rfl, rfl⟩ := h
      refine ⟨by simp [List.takeWhile_append_dropWhile], .line ?_ (head?_dropWhile_line more)⟩
      intro hmem
      simpa using List.mem_takeWhile_imp hmem
    · next more =>
      rw [Option.map_eq_some_iff] at h
      obtain ⟨⟨found, after⟩, hfound, heq⟩ := h
      obtain ⟨rfl, rfl⟩ := Prod.mk.inj heq
      obtain ⟨body, rfl, rfl, hbody⟩ := untilClose_eq_some.1 hfound
      exact ⟨rfl, .block hbody⟩
    · cases h
  · rintro ⟨rfl, hcomment⟩
    cases hcomment with
    | line hbody hafter =>
      obtain ⟨htake, hdrop⟩ := line_eq hbody hafter
      simp only [List.cons_append, comment?, htake, hdrop]
    | @block body _ hbody =>
      have hclose : untilClose (body ++ close ++ rest) = some (body ++ close, rest) :=
        untilClose_eq_some.2 ⟨body, rfl, rfl, hbody⟩
      simp only [List.cons_append, comment?, hclose, Option.map_some]

/-- **`comment?` finds none** where the text begins with none. -/
theorem comment?_eq_none {text : List Char} : comment? text = none ↔ NoComment text := by
  constructor
  · intro h
    refine ⟨?_, ?_⟩
    · rintro ⟨more, rfl⟩
      simp [comment?] at h
    · rintro more rfl
      rw [comment?, Option.map_eq_none_iff] at h
      exact untilClose_eq_none.1 h
  · intro h
    unfold comment?
    split
    · next more => exact absurd ⟨more, rfl⟩ h.line
    · next more => rw [untilClose_eq_none.2 (h.block more rfl), Option.map_none]
    · rfl

/-! ## Cutting a text at its comments -/

/-- The comments that a text begins with, each with the blanks in front of it, and what follows
them. -/
inductive Cut : List Char → List (List Char × List Char) → List Char → Prop
  | done {rest : List Char} : NoComment (rest.dropWhile isBlank) → Cut rest [] rest
  | comment {gap comment after rest : List Char} {pieces : List (List Char × List Char)} :
      (∀ c ∈ gap, isBlank c = true) → IsComment comment after → Cut after pieces rest →
      Cut (gap ++ (comment ++ after)) ((gap, comment) :: pieces) rest

theorem Cut.text_eq {text rest : List Char} {pieces : List (List Char × List Char)}
    (h : Cut text pieces rest) : text = (pieces.flatMap fun p => p.1 ++ p.2) ++ rest := by
  induction h with
  | done => rfl
  | comment _ _ _ ih => rw [List.flatMap_cons, List.append_assoc, List.append_assoc, ← ih]

/-- A `comment` begins behind the blanks of the `gap` in front of it. -/
theorem blanks_comment {gap comment after : List Char} (hgap : ∀ c ∈ gap, isBlank c = true)
    (hcomment : IsComment comment after) :
    (gap ++ (comment ++ after)).takeWhile isBlank = gap ∧
      (gap ++ (comment ++ after)).dropWhile isBlank = comment ++ after := by
  obtain ⟨more, hmore⟩ : ∃ more, comment ++ after = '/' :: more := by
    cases hcomment <;> exact ⟨_, rfl⟩
  have hslash : ¬ isBlank '/' = true := by decide
  rw [List.takeWhile_append_of_pos hgap, List.dropWhile_append_of_pos hgap, hmore,
    List.takeWhile_cons_of_neg hslash, List.dropWhile_cons_of_neg hslash, List.append_nil]
  exact ⟨rfl, rfl⟩

/-- **A text is cut in one way**: there is one `Cut`. -/
theorem Cut.unique {text rest rest' : List Char} {pieces pieces' : List (List Char × List Char)}
    (h : Cut text pieces rest) (h' : Cut text pieces' rest') : pieces' = pieces ∧ rest' = rest := by
  induction h generalizing pieces' rest' with
  | @done rest hnone =>
    generalize htext : rest = text at h'
    cases h' with
    | done => exact ⟨rfl, rfl⟩
    | comment hgap hcomment _ =>
      rw [htext, (blanks_comment hgap hcomment).2] at hnone
      have := comment?_eq_some.2 ⟨rfl, hcomment⟩
      rw [comment?_eq_none.2 hnone] at this
      cases this
  | @comment gap comment after rest pieces hgap hcomment _ ih =>
    obtain ⟨htake, hdrop⟩ := blanks_comment hgap hcomment
    have hsome := comment?_eq_some.2 ⟨rfl, hcomment⟩
    generalize htext : gap ++ (comment ++ after) = text at h' htake hdrop
    cases h' with
    | done hnone =>
      rw [hdrop, ← comment?_eq_none, hsome] at hnone
      cases hnone
    | comment hgap' hcomment' hafter' =>
      obtain ⟨htake', hdrop'⟩ := blanks_comment hgap' hcomment'
      have hsome' := comment?_eq_some.2 ⟨rfl, hcomment'⟩
      rw [← hdrop', hdrop, hsome] at hsome'
      obtain ⟨rfl, rfl⟩ := Prod.mk.inj (Option.some.inj hsome')
      obtain ⟨rfl, rfl⟩ := ih hafter'
      rw [← htake', htake]
      exact ⟨rfl, rfl⟩

/-- **The text scan cuts a `text`** at its comments. -/
theorem exists_cut (text : List Char) :
    ∃ pieces rest, Cut text pieces rest ∧ commentsFrom text = pieces.map (·.2) := by
  induction text using commentsFrom.induct with
  | case1 text hnone =>
    exact ⟨[], text, .done (comment?_eq_none.1 hnone), commentsFrom_of_none hnone⟩
  | case2 text comment rest hsome _ ih =>
    obtain ⟨pieces, left, hcut, hcomments⟩ := ih
    obtain ⟨hdrop, hcomment⟩ := comment?_eq_some.1 hsome
    have hgap : ∀ c ∈ text.takeWhile isBlank, isBlank c = true :=
      fun c hc => List.mem_takeWhile_imp hc
    have hpiece := Cut.comment hgap hcomment hcut
    rw [← hdrop, List.takeWhile_append_dropWhile] at hpiece
    exact ⟨_, left, hpiece, by rw [commentsFrom_of_some hsome, hcomments, List.map_cons]⟩

/-! ## The line that names an interpreter -/

/-- The line at the start of a source that names an interpreter, without its end, and what follows
it. -/
inductive Interpreter : List Char → List Char → List Char → Prop
  | none {source : List Char} : ¬ ['#', '!'] <+: source → Interpreter source [] source
  | line {line text : List Char} : '\n' ∉ line → (∀ c ∈ text.head?, c = '\n') →
      Interpreter ('#' :: '!' :: (line ++ text)) ('#' :: '!' :: line) text

theorem Interpreter.source_eq {source line text : List Char} (h : Interpreter source line text) :
    source = line ++ text := by
  cases h <;> rfl

theorem exists_interpreter (source : List Char) :
    ∃ line, Interpreter source line (dropInterpreter source) := by
  unfold dropInterpreter
  split
  · next rest =>
    refine ⟨'#' :: '!' :: rest.takeWhile (· ≠ '\n'), ?_⟩
    have hline : '\n' ∉ rest.takeWhile (· ≠ '\n') := fun hmem => by
      simpa using List.mem_takeWhile_imp hmem
    have := Interpreter.line hline (head?_dropWhile_line rest)
    rwa [List.takeWhile_append_dropWhile] at this
  · next hnone =>
    refine ⟨[], .none ?_⟩
    rintro ⟨rest, rfl⟩
    exact hnone rest rfl

theorem Interpreter.unique {source line text line' text' : List Char}
    (h : Interpreter source line text) (h' : Interpreter source line' text') :
    line' = line ∧ text' = text := by
  generalize hsource : source = source' at h'
  cases h with
  | none hnone =>
    cases h' with
    | none => exact ⟨rfl, hsource.symm⟩
    | line => exact absurd ⟨_, hsource.symm⟩ hnone
  | line hline htext =>
    cases h' with
    | none hnone => exact absurd ⟨_, hsource⟩ hnone
    | line hline' htext' =>
      have heq := (List.cons.inj (List.cons.inj hsource).2).2
      obtain ⟨htake, hdrop⟩ := line_eq hline htext
      obtain ⟨htake', hdrop'⟩ := line_eq hline' htext'
      rw [heq] at htake hdrop
      rw [← htake, ← hdrop, htake', hdrop']
      exact ⟨rfl, rfl⟩

/-! ## Pragmas -/

/-- The `pragma` stands in the text and no word goes on behind it. -/
def Carries (pragma text : List Char) : Prop :=
  ∃ before after, text = before ++ (pragma ++ after) ∧
    ∀ c ∈ after.head?, isAlphanumeric c = false ∧ c ≠ '_' ∧ c ≠ '-'

/-- The `text` carries one of the pragmas. -/
def IsMarked (text : List Char) : Prop := Carries flow.toList text ∨ Carries noFlow.toList text

/-- Of the `comments` that are marked the first one is, and it is not marked against Flow. -/
def MarksFlow (comments : List (List Char)) : Prop :=
  ∃ before comment after, comments = before ++ comment :: after ∧
    (∀ c ∈ before, ¬ IsMarked c) ∧ IsMarked comment ∧ ¬ Carries noFlow.toList comment

theorem not_any_continues {text : List Char} :
    (!text.head?.any continues) = true ↔
      ∀ c ∈ text.head?, isAlphanumeric c = false ∧ c ≠ '_' ∧ c ≠ '-' := by
  cases text <;> simp [continues, and_assoc]

/-- **The `pragma` occurs** where the text `Carries` it. -/
theorem occursIn_iff {pragma text : List Char} (hne : pragma ≠ []) :
    occursIn pragma text = true ↔ Carries pragma text := by
  induction text with
  | nil =>
    rw [occursIn, List.isEmpty_iff]
    refine ⟨fun h => absurd h hne, ?_⟩
    rintro ⟨before, after, htext, -⟩
    have := List.append_eq_nil_iff.1 (List.append_eq_nil_iff.1 htext.symm).2
    exact this.1
  | cons c rest ih =>
    rw [occursIn, Bool.or_eq_true, Bool.and_eq_true, not_any_continues, ih,
      List.isPrefixOf_iff_prefix]
    constructor
    · rintro (⟨⟨after, hafter⟩, hword⟩ | ⟨before, after, rfl, hword⟩)
      · rw [← hafter, List.drop_left] at hword
        exact ⟨[], after, hafter.symm, hword⟩
      · exact ⟨c :: before, after, rfl, hword⟩
    · rintro ⟨before, after, htext, hword⟩
      cases before with
      | nil =>
        rw [List.nil_append] at htext
        rw [htext, List.drop_left]
        exact .inl ⟨⟨after, rfl⟩, hword⟩
      | cons b before => exact .inr ⟨before, after, (List.cons.inj htext).2, hword⟩

/-- **The first of the `comments` with a marker decides.** -/
theorem decide_iff {comments : List (List Char)} :
    Pragma.decide (comments.map String.ofList) = true ↔ MarksFlow comments := by
  have hflow : flow.toList ≠ [] := by decide
  have hnoFlow : noFlow.toList ≠ [] := by decide
  induction comments with
  | nil =>
    refine ⟨fun h => absurd h Bool.false_ne_true, ?_⟩
    rintro ⟨before, comment, after, hnil, -⟩
    simp at hnil
  | cons comment rest ih =>
    rw [List.map_cons, Pragma.decide, String.toList_ofList]
    -- Either this comment decides or it is passed over.
    have here (hmarked : IsMarked comment) :
        MarksFlow (comment :: rest) ↔ ¬ Carries noFlow.toList comment := by
      constructor
      · rintro ⟨before, other, after, heq, hbefore, -, hother⟩
        cases before with
        | nil => exact (List.cons.inj heq).1 ▸ hother
        | cons b before =>
          exact absurd ((List.cons.inj heq).1 ▸ hmarked) (hbefore b List.mem_cons_self)
      · exact fun h => ⟨[], comment, rest, rfl, fun _ hc => absurd hc List.not_mem_nil, hmarked, h⟩
    have passed (hmarked : ¬ IsMarked comment) : MarksFlow (comment :: rest) ↔ MarksFlow rest := by
      constructor
      · rintro ⟨before, other, after, heq, hbefore, hother⟩
        cases before with
        | nil => exact absurd ((List.cons.inj heq).1 ▸ hother.1) hmarked
        | cons b before =>
          exact ⟨before, other, after, (List.cons.inj heq).2,
            fun c hc => hbefore c (List.mem_cons_of_mem _ hc), hother⟩
      · rintro ⟨before, other, after, rfl, hbefore, hother⟩
        exact ⟨comment :: before, other, after, rfl,
          List.forall_mem_cons.2 ⟨hmarked, hbefore⟩, hother⟩
    split
    · next h =>
      have hno := (occursIn_iff hnoFlow).1 h
      simp [here (.inr hno), hno]
    · next h =>
      have hno := mt (occursIn_iff hnoFlow).2 h
      split
      · next hyes => simp [here (.inl ((occursIn_iff hflow).1 hyes)), hno]
      · next hneither =>
        exact ih.trans (passed (not_or.2 ⟨mt (occursIn_iff hflow).2 hneither, hno⟩)).symm

/-! ## The front of a source -/

/-- The front of a source and what follows it: the line that names an interpreter, and comments with
the blanks in front of them. -/
structure Front where
  interpreter : List Char
  pieces : List (List Char × List Char)
  rest : List Char

namespace Front

def comments (front : Front) : List (List Char) := front.pieces.map (·.2)

def text (front : Front) : List Char :=
  front.interpreter ++ ((front.pieces.flatMap fun p => p.1 ++ p.2) ++ front.rest)

/-- The `source` has this front. -/
def Of (front : Front) (source : List Char) : Prop :=
  ∃ text, Interpreter source front.interpreter text ∧ Cut text front.pieces front.rest

end Front

/-- **The front of a `source`**: every source is cut in one way into the line that names an
interpreter, comments with blanks in front of them, and a rest that begins with no comment
(`Front.Of`). These comments are the `leadingComments` of the text scan, and the first one of them
with a pragma decides about Flow (`MarksFlow`) unless the name of the file does. -/
theorem front_of_source (source path : String) :
    ∃ front : Front, front.Of source.toList ∧ front.text = source.toList ∧
      (∀ other : Front, other.Of source.toList → other = front) ∧
      leadingComments source = front.comments.map String.ofList ∧
      ((TextScan.scan source path).isFlow = true ↔
        SourceOptions.declarationEnding.toList <:+ path.toList ∨ MarksFlow front.comments) := by
  obtain ⟨line, hline⟩ := exists_interpreter source.toList
  obtain ⟨pieces, rest, hcut, hcomments⟩ := exists_cut (dropInterpreter source.toList)
  have hleading : leadingComments source = (pieces.map (·.2)).map String.ofList := by
    rw [leadingComments, hcomments]
  refine ⟨⟨line, pieces, rest⟩, ⟨_, hline, hcut⟩, ?_, ?_, hleading, ?_⟩
  · rw [Front.text, ← hcut.text_eq, ← hline.source_eq]
  · rintro ⟨line', pieces', rest'⟩ ⟨text, hline', hcut'⟩
    obtain ⟨rfl, rfl⟩ := hline.unique hline'
    obtain ⟨rfl, rfl⟩ := hcut.unique hcut'
    rfl
  · simp only [TextScan.scan, SourceOptions.isDeclaration, Bool.or_eq_true,
      List.isSuffixOf_iff_suffix, hleading, decide_iff, Front.comments]

/-- An opening whose star does not close it, comments without blanks between them, and one with both
pragmas. -/
example : leadingComments "#!x\n/*/ @flow */// @flowtype\n/* @noflow @flow */ /* @flow" =
    ["/*/ @flow */", "// @flowtype", "/* @noflow @flow */"] := by decide +kernel

end FlowMigration.Pragma
