import FlowMigration.Proofs.Source.Layout
import FlowMigration.Source.Detect

/-!
# Imports that the text of a file shows

What a source asks for when it is read, and what its text alone tells.

* `Request.sound_of_read`: each module that a source asks for is named by a literal in it, behind
  the words of an import, an export or a call.
* `SourceOptions.imports_of_layout`: the text scan finds those that are written plainly, in a layout
  that it reads.
-/

namespace FlowMigration

open Script

/-! ## Literals -/

/-- A line ends in no literal that is written plainly, as `cs`. -/
theorem Script.Literal.newline_not_mem_of_scan {quote : Char} {cs after : List Char} :
    ∀ {pieces : List Piece} {length : Nat} {faulty : Bool} {literal : Literal},
      Literal.scan quote 0 pieces length faulty (cs ++ quote :: after) = some literal →
      (∀ c ∈ cs, c ≠ quote ∧ c ≠ '\\') → '\n' ∉ cs := by
  induction cs with
  | nil => intro _ _ _ _ _ _ h; cases h
  | cons c cs ih =>
    intro pieces length faulty literal h hplain
    obtain ⟨⟨hquote, hslash⟩, hplain⟩ := List.forall_mem_cons.1 hplain
    rw [List.cons_append, Literal.scan, if_neg (by simpa using hquote),
      if_neg (by simpa using hslash)] at h
    split at h
    · cases h
    · next hline =>
      simp only [List.mem_cons, not_or]
      exact ⟨fun hc => hline (by simp [← hc]), ih h hplain⟩

namespace Script.Request

/-- The specifier of `request` can be written without escapes: it is not empty, and no quote and no
backslash is in it. -/
def IsPlain (request : Request) : Prop :=
  request.specifier.toList ≠ [] ∧
    ∀ c ∈ request.specifier.toList, TextScan.isQuote c = false ∧ c ≠ '\\'

theorem isPlain_of_all {request : Request} (hne : request.specifier.toList ≠ [])
    (h : (request.specifier.toList.all fun c => !TextScan.isQuote c && c != '\\') = true) :
    request.IsPlain := ⟨hne, by simpa using h⟩

/-- The literal of `request` is the specifier between quotes, in a layout that the text scan
reads. -/
def IsOpen (source : List Char) (request : Request) : Prop :=
  ∃ before lead quote after,
    source = before ++ (lead ++ quote :: (request.specifier.toList ++ quote :: after)) ∧
      request.offset = before.length + lead.length ∧ TextScan.isQuote quote = true ∧
        TextScan.Layout before lead request.specifier.toList after

variable {source : List Char} {request : Request}

/-- No line ends in a specifier that `IsPlain`, either. -/
theorem IsPlain.parts (h : request.IsPlain) (hstand : request.StandsIn source)
    (before : List Char) {quote : Char} {after : List Char} (hquote : TextScan.isQuote quote = true)
    (hsource : source = before ++ quote :: (request.specifier.toList ++ quote :: after))
    (hoffset : request.offset = before.length) :
    ∀ c ∈ request.specifier.toList, TextScan.isSpecifierPart c = true := by
  obtain ⟨literal, hliteral, -⟩ := hstand
  rw [hoffset, hsource, List.drop_left] at hliteral
  have hne (c : Char) (hc : c ∈ request.specifier.toList) : c ≠ quote ∧ c ≠ '\\' := by
    obtain ⟨hnot, hslash⟩ := h.2 c hc
    refine ⟨fun heq => ?_, hslash⟩
    rw [heq, hquote] at hnot
    cases hnot
  have hline : '\n' ∉ request.specifier.toList := by
    obtain rfl | rfl : quote = '\'' ∨ quote = '"' := by simpa [TextScan.isQuote] using hquote
    all_goals exact Literal.newline_not_mem_of_scan hliteral hne
  intro c hc
  simp only [TextScan.isSpecifierPart, (h.2 c hc).1, Bool.not_false, Bool.true_and, bne_iff_ne]
  exact fun heq => hline (heq ▸ hc)

/-- **What a source asks for** (`program.requests`) stands in it, behind the words of an import, an
export or a call. -/
theorem sound_of_read {text : String} {program : Program} (h : Program.read text = some program) :
    ∀ request ∈ program.requests, request.StandsIn text.toList ∧
      ∃ frame start front, request.Framed text.toList frame start front := by
  obtain ⟨askings, hrequests, hstand, -⟩ := Program.exists_askings h
  rw [hrequests]
  refine List.forall_mem_map.2 fun asking ha => ?_
  exact ⟨(hstand asking ha).literal, asking.frame, asking.start, asking.front,
    (hstand asking ha).framed⟩

end Script.Request

namespace SourceOptions

/-- **The imports of a file that can be read** are what its `program` asks for. Each is named behind
the words of an import, an export or a call (`Framed`), and the text scan finds it if it is written
plainly (`IsPlain`) and in a layout that the scan reads (`IsOpen`). -/
theorem imports_of_layout {source path : String} {program : Program}
    (h : Program.read source = some program) :
    (detect source path).imports = program.requests.map (·.specifier) ∧
      ∀ request ∈ program.requests,
        (∃ frame start front, request.Framed source.toList frame start front) ∧
          (request.IsPlain → request.IsOpen source.toList →
            request.specifier ∈ (TextScan.scan source path).imports) := by
  refine ⟨by rw [detect, h]; rfl, fun request hr => ?_⟩
  obtain ⟨hstand, hframed⟩ := Request.sound_of_read h request hr
  refine ⟨hframed, fun hplain hopen => ?_⟩
  obtain ⟨before, lead, quote, after, hsource, hoffset, hquote, hlayout⟩ := hopen
  have hparts := hplain.parts hstand (before ++ lead) hquote
    (by rw [hsource, List.append_assoc]) (by rw [hoffset, List.length_append])
  have hmem := hlayout.mem_specifiers hquote hplain.1 hparts
  rw [← hsource] at hmem
  exact List.mem_map.2 ⟨_, hmem, String.ofList_toList⟩

/-- A file with a namespace that is handed on, an import over several lines and a call. -/
def openImports : String :=
  "a()\nexport * as b from \"./b\"\nimport \x7b\n  c,\n\x7d from './c'\nf(import( './d' ))"

/-- What that file says. -/
def openProgram : Program :=
  ⟨[], [⟨23, "./b"⟩, ⟨50, "./c"⟩, ⟨66, "./d"⟩], false⟩

theorem imports_of_layout_openImports :
    Program.read openImports = some openProgram ∧
      (detect openImports "a.js").imports = openProgram.requests.map (·.specifier) ∧
      ∀ request ∈ openProgram.requests,
        (∃ frame start front, request.Framed openImports.toList frame start front) ∧
          request.IsPlain ∧ request.IsOpen openImports.toList ∧
          request.specifier ∈ (TextScan.scan openImports "a.js").imports := by
  have hread : Program.read openImports = some openProgram := by decide +kernel
  obtain ⟨himports, hall⟩ := @imports_of_layout openImports "a.js" openProgram hread
  have hblank : TextScan.Blank [' '] := List.forall_mem_singleton.2 (by decide)
  have hnone : TextScan.Blank [] := fun _ hc => absurd hc List.not_mem_nil
  have hline (lines : List Char) (h : lines.getLast? = some '\n') : TextScan.OpensLine lines :=
    ⟨lines, [], (List.append_nil lines).symm, .inr h, fun _ hc => absurd hc List.not_mem_nil⟩
  have hplain : ∀ request ∈ openProgram.requests, request.IsPlain := by
    simp only [openProgram, List.forall_mem_cons, List.not_mem_nil, false_imp_iff, implies_true,
      and_true]
    exact ⟨Request.isPlain_of_all (by decide) (by decide),
      Request.isPlain_of_all (by decide) (by decide), Request.isPlain_of_all (by decide) (by decide)⟩
  -- Each statement with what is in front of it and behind it.
  have hopen : ∀ request ∈ openProgram.requests, request.IsOpen openImports.toList := by
    simp only [openProgram, List.forall_mem_cons, List.not_mem_nil, false_imp_iff, implies_true,
      and_true]
    refine ⟨?_, ?_, ?_⟩
    · refine ⟨"a()\n".toList, _, '"', _, ?_, ?_, rfl,
        @TextScan.Layout.exportAll _ ("export".toList ++ [' '])
          ([' '] ++ "as".toList ++ [' '] ++ ['b']) [' '] [' '] _
          "\nimport \x7b\n  c,\n\x7d from './c'\nf(import( './d' ))".toList (hline _ (by decide))
          (.plain (by decide) hblank)
          (.some (by decide) hblank (by decide) hblank (by decide)
            (List.forall_mem_singleton.2 (by decide))) hblank hblank ?_⟩
      · decide +kernel
      · decide +kernel
      · rintro ⟨front, words, names, hbefore, -, hwords, -⟩
        -- No export begins in front: it has an `x`.
        have hx : 'x' ∈ words := by cases hwords <;> simp
        have hmem : 'x' ∈ "a()\n".toList := by rw [hbefore]; simp [hx]
        exact absurd hmem (by decide)
    · refine ⟨"a()\nexport * as b from \"./b\"\n".toList, _, '\'', _, ?_, ?_, rfl,
        @TextScan.Layout.importNames _ ' ' ' ' "\x7b\n  c,\n\x7d".toList [' '] _
          "\nf(import( './d' ))".toList (hline _ (by decide)) (by decide) (by decide)
          (List.all_eq_true.1 (by decide)) (by decide) hblank⟩
      · decide +kernel
      · decide +kernel
    · refine ⟨"a()\nexport * as b from \"./b\"\nimport \x7b\n  c,\n\x7d from './c'\nf(".toList, _,
        '\'', _, ?_, ?_, rfl, @TextScan.Layout.call _ "import".toList [] [' '] [' '] _ [')']
          (.inr rfl) (by decide +kernel) hnone hblank hblank (by decide)⟩
      · decide +kernel
      · decide +kernel
  exact ⟨hread, himports, fun request hr => ⟨(hall request hr).1, hplain request hr,
    hopen request hr, (hall request hr).2 (hplain request hr) (hopen request hr)⟩⟩

/-- A file with a comment among the names of an import. -/
def hiddenImport : String := "import \x7b a, // c\n  b \x7d from './x'"

/-- **A comment hides an import** from the text scan, though the source is read. -/
theorem not_imports_of_comment :
    ¬ ∀ (source path : String) (program : Program), Program.read source = some program →
      ∀ request ∈ program.requests, request.IsPlain →
        request.specifier ∈ (TextScan.scan source path).imports := by
  intro hall
  have hread : Program.read hiddenImport = some ⟨[], [⟨28, "./x"⟩], false⟩ := by decide +kernel
  have hscan : (TextScan.scan hiddenImport "a.js").imports = [] := by decide +kernel
  have hplain : (⟨28, "./x"⟩ : Request).IsPlain :=
    Request.isPlain_of_all (by decide) (by decide)
  have hmem := hall _ "a.js" _ hread _ List.mem_cons_self hplain
  rw [hscan] at hmem
  exact absurd hmem List.not_mem_nil

end SourceOptions

end FlowMigration
