import FlowMigration.Proofs.Path.Pieces
import FlowMigration.Proofs.Text.Lines
import FlowMigration.Proofs.Text.Unstyled
import FlowMigration.Report.Printer

/-!
# The lines of a report

What a report shows is made of whole lines. Every package, every file that failed or was not parsed
and every name that several packages have is on a line of its own, and colors do not change any of
this.

* `Report.Without`: a character is in none of the texts that are shown.
* `Report.ownLines`: the lines of packages, files and names, in the order of the report.
* `Report.print_decorated`: what colors add, and the lines that are printed.
-/

namespace FlowMigration

open Text

/-! ## The texts that are shown -/

/-- The texts of `package` that are shown. -/
def PackageReport.texts (package : PackageReport) : List String :=
  package.key :: package.name.toList ++ package.internalDependencies.toList ++ package.excludes ++
    package.usage.failedFiles ++ package.usage.lexicalFiles

def NameConflict.texts (conflict : NameConflict) : List String :=
  [conflict.name, conflict.kept, conflict.rejected]

/-- The texts of `report` that are shown. -/
def Report.texts (report : Report) : List String :=
  report.configPath :: report.packages.flatMap PackageReport.texts ++
    report.nameConflicts.flatMap NameConflict.texts

/-- A character `c` that none of the `texts` holds. -/
def Missing (c : Char) (texts : List String) : Prop := ∀ text ∈ texts, c ∉ text.toList

/-- A character `c` that no shown text of the `report` holds. -/
def Report.Without (c : Char) (report : Report) : Prop := Missing c report.texts

instance (c : Char) (report : Report) : Decidable (report.Without c) :=
  inferInstanceAs (Decidable (∀ text ∈ report.texts, c ∉ text.toList))

section Missing

variable {c : Char}

@[simp] theorem Missing.nil : Missing c [] := List.forall_mem_nil _

@[simp] theorem Missing.append_iff {as bs : List String} :
    Missing c (as ++ bs) ↔ Missing c as ∧ Missing c bs := List.forall_mem_append

@[simp] theorem Missing.cons_iff {text : String} {texts : List String} :
    Missing c (text :: texts) ↔ c ∉ text.toList ∧ Missing c texts := List.forall_mem_cons

@[simp] theorem Missing.flatMap_iff {α : Type} {f : α → List String} {xs : List α} :
    Missing c (xs.flatMap f) ↔ ∀ x ∈ xs, Missing c (f x) := by
  simp only [Missing, List.mem_flatMap]
  exact ⟨fun h x hx text ht => h text ⟨x, hx, ht⟩, fun h text ⟨x, hx, ht⟩ => h x hx text ht⟩

theorem not_mem_toDigits (h : c.isDigit = false) (n : Nat) : c ∉ Nat.toDigits 10 n := by
  intro hmem
  have hdigit := Nat.isDigit_of_mem_toDigits (by decide) (by decide) hmem
  rw [h] at hdigit
  cases hdigit

theorem Missing.intercalate {names : List String} (h : Missing c names) {sep : String}
    (hsep : c ∉ sep.toList) : c ∉ (sep.intercalate names).toList := by
  have hother {text : String} (htext : c ∉ text.toList) : ∀ d ∈ text.toList, d ≠ c :=
    fun d hd heq => htext (heq ▸ hd)
  exact fun hmem => forall_mem_intercalate (hother hsep) (fun name hname => hother (h name hname))
    c hmem rfl

end Missing

namespace Path

theorem trimEnd_subset (ps : List (List Char)) : trimEnd ps ⊆ ps := by
  intro p hp
  rw [trimEnd, List.mem_reverse] at hp
  exact List.mem_reverse.1 ((List.dropWhile_suffix _).subset hp)

theorem trimPieces_subset (ps : List (List Char)) : trimPieces ps ⊆ ps :=
  List.Subset.trans (trimEnd_subset _) (List.dropWhile_suffix _).subset

/-- What is left below `base` is made of pieces of the path. -/
theorem exists_pieces_of_relativeTo? {base path text : String}
    (h : relativeTo? base path = some text) : ∃ ps, ps ⊆ pieces path.toList ∧
      (text.toList = unpieces ps ∨ text.toList = '/' :: unpieces ps) := by
  have hbehind {rest : List Char} (hpath : path.toList = '/' :: rest) :
      pieces rest ⊆ pieces path.toList := by
    rw [hpath, pieces, if_pos rfl]
    exact List.subset_cons_self _ _
  have hdropped {want : List Component} {all : List (List Char)} (hall : all ⊆ pieces path.toList)
      (hmap : (dropComponents want all).map (fun ps => String.ofList (unpieces (trimPieces ps))) =
        some text) : ∃ ps, ps ⊆ pieces path.toList ∧
          (text.toList = unpieces ps ∨ text.toList = '/' :: unpieces ps) := by
    obtain ⟨ps, hps, rfl⟩ := Option.map_eq_some_iff.1 hmap
    have hsub := List.Subset.trans (dropComponents_suffix hps).subset hall
    exact ⟨trimPieces ps, List.Subset.trans (trimPieces_subset ps) hsub, .inl String.toList_ofList⟩
  unfold relativeTo? at h
  split at h
  · next rest _ hpath =>
    cases h
    exact ⟨trimEnd (pieces rest), List.Subset.trans (trimEnd_subset _) (hbehind hpath),
      .inr String.toList_ofList⟩
  · split at h
    · next more hmore =>
      cases h
      refine ⟨['.'] :: trimEnd more, ?_, .inl String.toList_ofList⟩
      rw [hmore]
      exact List.cons_subset_cons _ (trimEnd_subset more)
    · cases h
      exact ⟨_, trimEnd_subset _, .inl String.toList_ofList⟩
  · next hpath => exact hdropped (hbehind hpath) h
  · split at h
    · next more hmore => exact hdropped (by rw [hmore]; exact List.subset_cons_self _ _) h
    · cases h
  · split at h
    · cases h
    · cases h
    · exact hdropped (List.Subset.refl _) h

theorem mem_of_mem_relativeTo? {base path text : String} (h : relativeTo? base path = some text)
    {c : Char} (hc : c ∈ text.toList) : c = '/' ∨ c ∈ path.toList := by
  obtain ⟨ps, hsub, hps⟩ := exists_pieces_of_relativeTo? h
  have hunpieces (hc : c ∈ unpieces ps) : c = '/' ∨ c ∈ path.toList :=
    (mem_unpieces hc).imp_right fun ⟨_, hp, hc⟩ => mem_of_mem_pieces (hsub hp) hc
  rcases hps with hps | hps
  · exact hunpieces (hps ▸ hc)
  · rw [hps, List.mem_cons] at hc
    exact hc.elim .inl hunpieces

end Path

theorem Report.not_mem_shownPath {c : Char} {path : String} (h : c ∉ path.toList) (hslash : c ≠ '/')
    (workingDir : String) : c ∉ (shownPath workingDir path).toList := by
  unfold shownPath
  split
  · next rest hrest =>
    split
    · exact h
    · intro hc
      exact (Path.mem_of_mem_relativeTo? hrest hc).elim hslash h
  · exact h

/-! ## The pieces -/

/-- The texts of `pieces`. -/
def textsOf (pieces : List Styled) : List String := pieces.map (·.text)

@[simp] theorem textsOf_nil : textsOf [] = [] := rfl

@[simp] theorem textsOf_cons_of (style : Style) (text : String) (pieces : List Styled) :
    textsOf (.of style text :: pieces) = text :: textsOf pieces := rfl

@[simp] theorem textsOf_cons_plain (text : String) (pieces : List Styled) :
    textsOf (.plain text :: pieces) = text :: textsOf pieces := rfl

@[simp] theorem textsOf_append (as bs : List Styled) :
    textsOf (as ++ bs) = textsOf as ++ textsOf bs := List.map_append

@[simp] theorem textsOf_flatMap {α : Type} (f : α → List Styled) (xs : List α) :
    textsOf (xs.flatMap f) = xs.flatMap fun x => textsOf (f x) := List.map_flatMap

@[simp] theorem escape_not_mem_toDigits (n : Nat) : '\x1b' ∉ Nat.toDigits 10 n :=
  not_mem_toDigits (by decide) n

namespace PackageReport

variable {package : PackageReport}

theorem not_mem_label {c : Char} (h : c ∉ package.key.toList) (hroot : c ∉ " (root)".toList) :
    c ∉ package.label.toList := by
  unfold label
  split
  · rw [String.toList_append, List.mem_append, not_or]
    exact ⟨h, hroot⟩
  · exact h

theorem not_mem_nameStyled {c : Char} (h : Missing c package.name.toList)
    (hwords : c ∉ "invalid package.json".toList ∧ c ∉ "unnamed".toList) :
    c ∉ package.nameStyled.text.toList := by
  unfold nameStyled
  split
  · exact hwords.1
  · split
    · next name hname => exact h name (by rw [hname, Option.toList_some, List.mem_singleton])
    · exact hwords.2

theorem textsOf_headline : textsOf package.headline =
    ["▸", " ", package.label, " ", package.nameStyled.text, "\n"] := rfl

theorem missing_counts : Missing '\x1b' (textsOf package.counts) := by
  have hdialects : '\x1b' ∉ (if package.dialects = [] then ""
      else " [" ++ ", ".intercalate package.dialects ++ "]").toList := by
    unfold dialects
    cases package.usage.hasJs <;> cases package.usage.hasJsx <;> decide
  simp [counts, hdialects]

theorem missing_listing {word : String} {names : List String} (hword : '\x1b' ∉ word.toList)
    (h : Missing '\x1b' names) : Missing '\x1b' (textsOf (listing word names)) := by
  unfold listing
  split
  · exact .nil
  · have hnames : '\x1b' ∉ (", ".intercalate names).toList := h.intercalate (by decide)
    simp [hword, hnames, -String.toList_intercalate]

theorem missing_pieces (h : Missing '\x1b' package.texts) :
    Missing '\x1b' (textsOf package.pieces) := by
  simp only [texts, Missing.append_iff, Missing.cons_iff] at h
  obtain ⟨⟨⟨⟨⟨hkey, hname⟩, huses⟩, hskips⟩, hfailed⟩, hlexical⟩ := h
  have hlabel := not_mem_label hkey (by decide)
  have hname := not_mem_nameStyled hname (by decide)
  simp only [pieces, textsOf_append, textsOf_flatMap, Missing.append_iff, Missing.flatMap_iff]
  refine ⟨⟨⟨⟨⟨?_, missing_counts⟩, missing_listing (by decide) huses⟩,
    missing_listing (by decide) hskips⟩, fun file hfile => ?_⟩, fun file hfile => ?_⟩
  · simp [textsOf_headline, hlabel, hname]
  · simp [failedLine, hfailed file hfile]
  · simp [lexicalLine, hlexical file hfile]

end PackageReport

namespace Report

theorem missing_conflictPieces {conflicts : List NameConflict}
    (h : ∀ conflict ∈ conflicts, Missing '\x1b' conflict.texts) :
    Missing '\x1b' (textsOf (conflictPieces conflicts)) := by
  unfold conflictPieces
  split
  · exact .nil
  · rw [textsOf_append, textsOf_flatMap, Missing.append_iff, Missing.flatMap_iff]
    refine ⟨by simp, fun conflict hmem => ?_⟩
    obtain ⟨hname, hkept, hrejected, -⟩ : _ ∧ _ ∧ _ ∧ _ := by
      simpa only [NameConflict.texts, Missing.cons_iff] using h conflict hmem
    simp [conflictLine, hname, hkept, hrejected]

/-- **No piece** of a `report` holds an escape character if no text does that is shown. -/
theorem missing_pieces {report : Report} (h : report.Without '\x1b') (workingDir : String) :
    Missing '\x1b' (textsOf (report.pieces workingDir)) := by
  rw [Without, texts] at h
  simp only [Missing.append_iff, Missing.cons_iff, Missing.flatMap_iff] at h
  obtain ⟨⟨hpath, hpackages⟩, hconflicts⟩ := h
  have hshown := not_mem_shownPath hpath (by decide) workingDir
  simp only [pieces, textsOf_append, textsOf_flatMap, Missing.append_iff, Missing.flatMap_iff]
  refine ⟨⟨⟨⟨⟨?_, fun package hmem => PackageReport.missing_pieces (hpackages package hmem)⟩,
    missing_conflictPieces hconflicts⟩, ?_⟩, ?_⟩, ?_⟩
  · simp [title]
  · unfold failedManifestPieces
    split <;> simp
  · cases report.conversions <;> simp [conversionPieces]
  · unfold summaryPieces
    split <;> simp [hshown]

end Report

/-! ## The lines that are printed -/

/-- The characters of the texts of `pieces`. -/
def charsOf (pieces : List Styled) : List Char := (textsOf pieces).flatMap String.toList

@[simp] theorem charsOf_append (as bs : List Styled) :
    charsOf (as ++ bs) = charsOf as ++ charsOf bs := by
  rw [charsOf, textsOf_append, List.flatMap_append, charsOf, charsOf]

@[simp] theorem charsOf_flatMap {α : Type} (f : α → List Styled) (xs : List α) :
    charsOf (xs.flatMap f) = xs.flatMap fun x => charsOf (f x) := by
  rw [charsOf, textsOf_flatMap, List.flatMap_assoc]
  rfl

theorem toList_render_false (pieces : List Styled) :
    (Styled.render false pieces).toList = charsOf pieces := by
  have htext : Styled.renderPiece false = fun piece => piece.text.toList :=
    funext Styled.renderPiece_false
  rw [Styled.render, String.toList_ofList, charsOf, textsOf, List.flatMap_map, htext]

theorem Text.Lines.of_last {pieces : List Styled} (last : String)
    (hlast : (textsOf pieces).getLast? = some last) (h : last.toList.getLast? = some '\n') :
    Lines (charsOf pieces) [] := by
  obtain ⟨front, hfront⟩ := List.getLast?_eq_some_iff.1 hlast
  refine .of_ended ?_
  rw [charsOf, hfront, List.flatMap_append, List.flatMap_singleton, List.getLast?_append, h]
  rfl

theorem Text.Lines.of_pieces {pieces : List Styled} {line : String}
    (hline : charsOf pieces = line.toList ++ ['\n']) (h : '\n' ∉ line.toList) :
    Lines (charsOf pieces) [line] := by
  rw [hline]
  exact .of_line h

theorem Text.Lines.map {α : Type} {xs : List α} {f : α → List Styled} {line : α → String}
    (h : ∀ x ∈ xs, Lines (charsOf (f x)) [line x]) :
    Lines (charsOf (xs.flatMap f)) (xs.map line) := by
  rw [charsOf_flatMap, List.map_eq_flatMap]
  exact .flatMap h

namespace PackageReport

/-- The line of `package`. -/
def line (package : PackageReport) : String :=
  "▸ " ++ package.label ++ " " ++ package.nameStyled.text

/-- The `line` of a package and those of its files that failed or were not parsed. -/
def ownLines (package : PackageReport) : List String :=
  package.line :: package.usage.failedFiles.map (fun file => "    ✗ " ++ file) ++
    package.usage.lexicalFiles.map fun file => "    ~ " ++ file ++ " (not parsed, text scan)"

theorem lines_listing (word : String) (names : List String) :
    Lines (charsOf (listing word names)) [] := by
  unfold listing
  split
  · exact .nil
  · refine .of_last (" " ++ ", ".intercalate names ++ "\n") rfl ?_
    rw [String.toList_append, List.getLast?_append]
    rfl

theorem lines_pieces {package : PackageReport} (h : Missing '\n' package.texts) :
    Lines (charsOf package.pieces) package.ownLines := by
  simp only [texts, Missing.append_iff, Missing.cons_iff] at h
  obtain ⟨⟨⟨⟨⟨hkey, hname⟩, -⟩, -⟩, hfailed⟩, hlexical⟩ := h
  have hlabel := not_mem_label hkey (by decide)
  have hname := not_mem_nameStyled hname (by decide)
  have hheadline : Lines (charsOf package.headline) [package.line] :=
    .of_pieces (by simp [charsOf, textsOf_headline, line]) (by simp [line, hlabel, hname])
  have hcounts : Lines (charsOf package.counts) [] := .of_last "\n" rfl (by simp)
  have hfailed : Lines (charsOf (package.usage.failedFiles.flatMap failedLine))
      (package.usage.failedFiles.map fun file => "    ✗ " ++ file) :=
    .map fun file hfile => .of_pieces (by simp [charsOf, failedLine])
      (by simp [hfailed file hfile])
  have hlexical : Lines (charsOf (package.usage.lexicalFiles.flatMap lexicalLine))
      (package.usage.lexicalFiles.map fun file =>
        "    ~ " ++ file ++ " (not parsed, text scan)") :=
    .map fun file hfile => .of_pieces (by simp [charsOf, lexicalLine])
      (by simp [hlexical file hfile])
  have huses := lines_listing "uses" package.internalDependencies.toList
  have hskips := lines_listing "skips" package.excludes
  have hall := ((((hheadline.append hcounts).append huses).append hskips).append
    hfailed).append hlexical
  simpa only [pieces, charsOf_append, ownLines, List.append_nil, List.singleton_append] using hall

end PackageReport

namespace Report

/-- The line of a name that several packages have, by its `conflict`. -/
def conflictText (conflict : NameConflict) : String :=
  "  " ++ conflict.name ++ " " ++ conflict.kept ++ " kept, " ++ conflict.rejected ++ " ignored"

/-- The lines of packages, of files that failed or were not parsed and of names that several
packages have, in the order of `report`. -/
def ownLines (report : Report) : List String :=
  report.packages.flatMap PackageReport.ownLines ++ report.nameConflicts.map conflictText

theorem lines_conflictPieces {conflicts : List NameConflict}
    (h : ∀ conflict ∈ conflicts, Missing '\n' conflict.texts) :
    Lines (charsOf (conflictPieces conflicts)) (conflicts.map conflictText) := by
  unfold conflictPieces
  split
  · next hempty =>
    rw [List.isEmpty_iff.1 hempty]
    exact .nil
  · rw [charsOf_append, ← List.nil_append (conflicts.map conflictText)]
    refine .append (.of_last ")\n" rfl (by simp)) (.map fun conflict hmem => ?_)
    obtain ⟨hname, hkept, hrejected, -⟩ : _ ∧ _ ∧ _ ∧ _ := by
      simpa only [NameConflict.texts, Missing.cons_iff] using h conflict hmem
    exact .of_pieces (by simp [charsOf, conflictLine, conflictText])
      (by simp [conflictText, hname, hkept, hrejected])

theorem lines_pieces {report : Report} (h : report.Without '\n') (workingDir : String) :
    Lines (charsOf (report.pieces workingDir)) report.ownLines := by
  rw [Without, texts] at h
  simp only [Missing.append_iff, Missing.cons_iff, Missing.flatMap_iff] at h
  obtain ⟨⟨-, hpackages⟩, hconflicts⟩ := h
  have hpackages : Lines (charsOf (report.packages.flatMap PackageReport.pieces))
      (report.packages.flatMap PackageReport.ownLines) := by
    rw [charsOf_flatMap]
    exact .flatMap fun package hmem => PackageReport.lines_pieces (hpackages package hmem)
  have htitle : Lines (charsOf report.title) [] := .of_last " packages\n\n" rfl (by simp)
  have hmanifests : Lines (charsOf (failedManifestPieces report.manifestsFailed)) [] := by
    unfold failedManifestPieces
    split
    · exact .nil
    · exact .of_last " package.json files could not be parsed\n" rfl (by simp)
  have hconversions : Lines (charsOf (conversionPieces report.conversions)) [] := by
    cases report.conversions with
    | none => exact .nil
    | some tally => exact .of_last " failed\n" rfl (by simp)
  have hsummary : Lines (charsOf (summaryPieces workingDir report)) [] :=
    .of_last "\n" rfl (by simp)
  have hall := ((((htitle.append hpackages).append (lines_conflictPieces hconflicts)).append
    hmanifests).append hconversions).append hsummary
  simpa only [pieces, charsOf_append, ownLines, List.append_nil, List.nil_append] using hall

/-- **Colors only decorate** a `report`: what is printed with them is the text without them when the
sequences for the terminal are deleted by `unstyle`. Every package, every file that failed or was
not parsed and every name that several packages have is on a line of its own (`ownLines`), in the
order of the report. -/
theorem print_decorated {report : Report} (hescape : report.Without '\x1b') (workingDir : String) :
    String.ofList (unstyle (report.print true workingDir).toList) =
        report.print false workingDir ∧
      (report.Without '\n' → report.ownLines.Sublist (linesOf (report.print false workingDir))) := by
  constructor
  · exact Styled.unstyle_render fun piece hmem =>
      missing_pieces hescape workingDir piece.text (List.mem_map_of_mem hmem)
  · intro hnewline
    refine Lines.sublist ?_
    rw [print, toList_render_false]
    exact lines_pieces hnewline workingDir

/-- A report with a file that failed, one that was not parsed and a name that two packages have. -/
def troubledReport : Report where
  root := "/"
  configPath := "/flow-ts-config.json"
  packages := [{
    key := "."
    manifestPath := "package.json"
    excludes := ["a"]
    usage := { failedFiles := ["b.js"], lexicalFiles := ["c.js"] }
    internalDependencies := Dict.empty }]
  nameConflicts := [⟨"d", "e/package.json", "f/package.json"⟩]

theorem print_decorated_troubled :
    troubledReport.Without '\x1b' ∧ troubledReport.Without '\n' ∧
      String.ofList (unstyle (troubledReport.print true "/g").toList) =
        troubledReport.print false "/g" ∧
      ["▸ . (root) unnamed", "    ✗ b.js", "    ~ c.js (not parsed, text scan)",
        "  d e/package.json kept, f/package.json ignored"].Sublist
          (linesOf (troubledReport.print false "/g")) := by
  have hescape : troubledReport.Without '\x1b' := by decide +kernel
  have hnewline : troubledReport.Without '\n' := by decide +kernel
  obtain ⟨hplain, hlines⟩ := print_decorated hescape "/g"
  exact ⟨hescape, hnewline, hplain, hlines hnewline⟩

end Report

end FlowMigration
