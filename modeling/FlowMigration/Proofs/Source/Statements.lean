import FlowMigration.Proofs.Source.Layout
import FlowMigration.Proofs.Text.Lines

/-!
# Statements that ask for a module

The forms in which an import, a re-export or a call is written on a line of its own, and how the
text scan reads them.

* `Form`, `Statement`: the forms, and a statement with its quotes.
* `Form.takes_imports`, `Form.takes_exports`: what the patterns take of it.
* `Statement.mem_specifiers`: a statement is found, whatever its names and its specifier are.
-/

namespace FlowMigration.TextScan

open Text Pattern

/-! ## Statements -/

/-- An identifier `name` of ASCII characters. -/
structure IsIdentifier (name : String) : Prop where
  ne_empty : name ≠ ""
  start : ∀ c ∈ name.toList.head?, c.isDigit = false
  parts : ∀ c ∈ name.toList, (c.isAlphanum || c == '_' || c == '$') = true

instance (name : String) : Decidable (IsIdentifier name) :=
  decidable_of_iff (name ≠ "" ∧ (name.toList.head?.all fun c => !c.isDigit) = true ∧
      (name.toList.all fun c => c.isAlphanum || c == '_' || c == '$') = true)
    ⟨fun ⟨hne, hstart, hparts⟩ => ⟨hne, by simpa [Option.all_eq_true] using hstart,
        List.all_eq_true.1 hparts⟩,
      fun h => ⟨h.ne_empty, by simpa [Option.all_eq_true] using h.start,
        List.all_eq_true.2 h.parts⟩⟩

/-- The `names` in braces. -/
def braced (names : List String) : String := "\x7b " ++ ", ".intercalate names ++ " \x7d"

/-- What an import declaration binds. -/
inductive Clause where
  | default (name : String)
  | braces (names : List String)
  | all (name : String)
  | defaultAndBraces (name : String) (names : List String)
  | types (names : List String)
  | typeofDefault (name : String)
deriving DecidableEq, Repr

def Clause.text : Clause → String
  | .default name => name
  | .braces names => braced names
  | .all name => "* as " ++ name
  | .defaultAndBraces name names => name ++ ", " ++ braced names
  | .types names => "type " ++ braced names
  | .typeofDefault name => "typeof " ++ name

def Clause.identifiers : Clause → List String
  | .default name | .all name | .typeofDefault name => [name]
  | .braces names | .types names => names
  | .defaultAndBraces name names => name :: names

/-- What is handed on from another module. -/
inductive Exported where
  | all
  | allAs (name : String)
  | braces (names : List String)
  | types (names : List String)
deriving DecidableEq, Repr

def Exported.text : Exported → String
  | .all => "*"
  | .allAs name => "* as " ++ name
  | .braces names => braced names
  | .types names => "type " ++ braced names

def Exported.identifiers : Exported → List String
  | .all => []
  | .allAs name => [name]
  | .braces names | .types names => names

/-- The forms of a statement that asks for a module. -/
inductive Form where
  | imports (clause : Clause)
  | importAlone
  | exports (exported : Exported)
  | requireCall (name : String)
  | importCall
deriving DecidableEq, Repr

/-- What leads to the quotes of a statement of this `Form`. -/
def Form.front : Form → String
  | .imports clause => "import " ++ clause.text ++ " from "
  | .importAlone => "import "
  | .exports exported => "export " ++ exported.text ++ " from "
  | .requireCall name => "const " ++ name ++ " = require("
  | .importCall => "import("

/-- What stands behind the quotes of a statement of this `Form`. -/
def Form.back : Form → String
  | .requireCall _ | .importCall => ")"
  | _ => ""

def Form.identifiers : Form → List String
  | .imports clause => clause.identifiers
  | .exports exported => exported.identifiers
  | .requireCall name => [name]
  | .importAlone | .importCall => []

/-- A statement that asks for a module, on a line of its own. -/
structure Statement where
  indent : String := ""
  form : Form
  quote : Char := '\''
  specifier : String
  /-- A semicolon ends it. -/
  ended : Bool := true
deriving DecidableEq, Repr

namespace Statement

def lead (s : Statement) : String := s.indent ++ s.form.front

def tail (s : Statement) : String := s.form.back ++ if s.ended then ";" else ""

def text (s : Statement) : String :=
  s.lead ++ s.quote.toString ++ s.specifier ++ s.quote.toString ++ s.tail

structure WellFormed (s : Statement) : Prop where
  indent : ∀ c ∈ s.indent.toList, isLineBlank c = true
  identifiers : ∀ name ∈ s.form.identifiers, IsIdentifier name
  quote : isQuote s.quote = true
  ne_empty : s.specifier ≠ ""
  parts : ∀ c ∈ s.specifier.toList, isSpecifierPart c = true

instance (s : Statement) : Decidable s.WellFormed :=
  decidable_of_iff (s.indent.toList.all isLineBlank = true ∧
      (∀ name ∈ s.form.identifiers, IsIdentifier name) ∧ isQuote s.quote = true ∧
      s.specifier ≠ "" ∧ s.specifier.toList.all isSpecifierPart = true)
    ⟨fun ⟨hindent, hids, hquote, hne, hparts⟩ =>
        ⟨List.all_eq_true.1 hindent, hids, hquote, hne, List.all_eq_true.1 hparts⟩,
      fun h => ⟨List.all_eq_true.2 h.indent, h.identifiers, h.quote, h.ne_empty,
        List.all_eq_true.2 h.parts⟩⟩

end Statement

/-! ## The characters of a statement -/

/-- A character `c` that stands in the front of an import or a re-export. -/
def isFrontPart (c : Char) : Bool :=
  c.isAlphanum || [' ', '_', '$', '*', '\x7b', '\x7d', ','].contains c

theorem isWordPart_of_isAlphanum {c : Char} (h : c.isAlphanum = true) : isWordPart c = true := by
  have hlt : c.toNat < 128 := by
    delta Char.isAlphanum Char.isAlpha Char.isUpper Char.isLower Char.isDigit at h
    simp only [Bool.or_eq_true, Bool.and_eq_true, decide_eq_true_eq, UInt32.le_iff_toNat_le] at h
    have hupper : 'Z'.val.toNat = 90 := rfl
    have hlower : 'z'.val.toNat = 122 := rfl
    have hdigit : '9'.val.toNat = 57 := rfl
    have hval : c.toNat = c.val.toNat := rfl
    omega
  rw [isWordPart, if_pos hlt, h, Bool.true_or]

theorem isClausePart_of_isFrontPart {c : Char} (h : isFrontPart c = true) :
    isClausePart c = true := by
  have hsigns : ∀ c ∈ [' ', '_', '$', '*', '\x7b', '\x7d', ','], isClausePart c = true :=
    List.all_eq_true.1 (by decide)
  rw [isFrontPart, Bool.or_eq_true, List.contains_iff_mem] at h
  rcases h with h | h
  · rw [isClausePart, isWordPart_of_isAlphanum h, Bool.true_or, Bool.true_or]
  · exact hsigns c h

theorem isSpecifierPart_of_isFrontPart {c : Char} (h : isFrontPart c = true) :
    isSpecifierPart c = true := by
  rw [isSpecifierPart, isQuote, Bool.and_eq_true, Bool.not_eq_true', Bool.or_eq_false_iff,
    beq_eq_false_iff_ne, beq_eq_false_iff_ne, bne_iff_ne]
  refine ⟨⟨?_, ?_⟩, ?_⟩
  all_goals
    rintro rfl
    revert h
    decide

/-- A `text` of such characters. -/
def Plain (text : String) : Prop := ∀ c ∈ text.toList, isFrontPart c = true

theorem Plain.of_all {text : String} (h : text.toList.all isFrontPart = true) : Plain text :=
  List.all_eq_true.1 h

theorem Plain.append {a b : String} (ha : Plain a) (hb : Plain b) : Plain (a ++ b) := by
  rw [Plain, String.toList_append]
  exact List.forall_mem_append.2 ⟨ha, hb⟩

theorem IsIdentifier.plain {name : String} (h : IsIdentifier name) : Plain name := by
  intro c hc
  have hpart := h.parts c hc
  simp only [Bool.or_eq_true, beq_iff_eq] at hpart
  rcases hpart with (hpart | rfl) | rfl
  · rw [TextScan.isFrontPart, hpart, Bool.true_or]
  · decide
  · decide

theorem plain_braced {names : List String} (h : ∀ name ∈ names, IsIdentifier name) :
    Plain (braced names) :=
  .append (.append (.of_all (by decide)) (forall_mem_intercalate (Plain.of_all (by decide))
    fun name hname => (h name hname).plain)) (.of_all (by decide))

theorem Clause.plain {clause : Clause} (h : ∀ name ∈ clause.identifiers, IsIdentifier name) :
    Plain clause.text := by
  cases clause with
  | default name => exact (h name (by simp [identifiers])).plain
  | braces names => exact plain_braced h
  | all name => exact .append (.of_all (by decide)) (h name (by simp [identifiers])).plain
  | defaultAndBraces name names =>
    obtain ⟨hname, hnames⟩ := List.forall_mem_cons.1 h
    exact .append (.append hname.plain (.of_all (by decide))) (plain_braced hnames)
  | types names => exact .append (.of_all (by decide)) (plain_braced h)
  | typeofDefault name => exact .append (.of_all (by decide)) (h name (by simp [identifiers])).plain

theorem Clause.text_ne_empty {clause : Clause}
    (h : ∀ name ∈ clause.identifiers, IsIdentifier name) : clause.text ≠ "" := by
  cases clause with
  | default name => exact (h name (by simp [identifiers])).ne_empty
  | _ => simp [text, braced]

theorem Exported.plain {exported : Exported}
    (h : ∀ name ∈ exported.identifiers, IsIdentifier name) : Plain exported.text := by
  cases exported with
  | all => exact .of_all (by decide)
  | allAs name => exact .append (.of_all (by decide)) (h name (by simp [identifiers])).plain
  | braces names => exact plain_braced h
  | types names => exact .append (.of_all (by decide)) (plain_braced h)

theorem Form.parts_front {form : Form} (h : ∀ name ∈ form.identifiers, IsIdentifier name) :
    ∀ c ∈ form.front.toList, isSpecifierPart c = true := by
  have hplain {text : String} (h : Plain text) : ∀ c ∈ text.toList, isSpecifierPart c = true :=
    fun c hc => isSpecifierPart_of_isFrontPart (h c hc)
  cases form with
  | imports clause =>
    exact hplain (.append (.append (.of_all (by decide)) (Clause.plain h)) (.of_all (by decide)))
  | importAlone => exact List.all_eq_true.1 (by decide)
  | exports exported =>
    exact hplain (.append (.append (.of_all (by decide)) (Exported.plain h)) (.of_all (by decide)))
  | requireCall name =>
    have hname : ∀ c ∈ name.toList, isSpecifierPart c = true :=
      hplain (h name (by simp [identifiers])).plain
    rw [front, String.toList_append, String.toList_append, List.forall_mem_append,
      List.forall_mem_append]
    exact ⟨⟨List.all_eq_true.1 (by decide), hname⟩, List.all_eq_true.1 (by decide)⟩
  | importCall => exact List.all_eq_true.1 (by decide)

namespace Statement

variable {s : Statement}

theorem toList_text (s : Statement) :
    s.text.toList = s.lead.toList ++ s.quote :: (s.specifier.toList ++ s.quote :: s.tail.toList) := by
  simp [text]

theorem parts_lead (h : s.WellFormed) : ∀ c ∈ s.lead.toList, isSpecifierPart c = true := by
  rw [lead, String.toList_append, List.forall_mem_append]
  refine ⟨fun c hc => ?_, Form.parts_front h.identifiers⟩
  have hblank := h.indent c hc
  rw [isLineBlank, Bool.or_eq_true, beq_iff_eq, beq_iff_eq] at hblank
  rcases hblank with rfl | rfl <;> decide

theorem parts_tail (s : Statement) : ∀ c ∈ s.tail.toList, isSpecifierPart c = true := by
  have hback : s.form.back = ")" ∨ s.form.back = "" := by cases s.form <;> simp [Form.back]
  rw [tail, String.toList_append, List.forall_mem_append]
  constructor
  · rcases hback with hback | hback <;> rw [hback] <;> exact List.all_eq_true.1 (by decide)
  · cases s.ended <;> exact List.all_eq_true.1 (by decide)

theorem newline_not_mem_text (h : s.WellFormed) : '\n' ∉ s.text.toList := by
  have hpart {cs : List Char} (hcs : ∀ c ∈ cs, isSpecifierPart c = true) : '\n' ∉ cs :=
    fun hmem => Find.ne_newline_of_part (hcs _ hmem) rfl
  have hquote : '\n' ≠ s.quote := fun heq => absurd (heq ▸ h.quote) (by decide)
  simp only [toList_text, List.mem_append, List.mem_cons, not_or]
  exact ⟨hpart (parts_lead h), hquote, hpart h.parts, hquote, hpart (parts_tail s)⟩

end Statement

/-! ## What the patterns take -/

theorem ExportWords.exists_append {words : List Char} (h : ExportWords words) :
    ∃ more, words = "export".toList ++ more := by
  cases h with
  | plain => exact ⟨_, rfl⟩
  | types => exact ⟨_, by rw [List.append_assoc, List.append_assoc]⟩

namespace Form

variable {indent : List Char}

theorem blank_space : Blank [' '] := List.forall_mem_singleton.2 (by decide)

theorem takes_imports (hindent : ∀ c ∈ indent, isLineBlank c = true) {clause : Clause}
    (h : ∀ name ∈ clause.identifiers, IsIdentifier name) :
    (sequence importLeads).Takes (indent ++ (Form.imports clause).front.toList) := by
  have htakes : (sequence importLeads).Takes (indent ++
      ("import".toList ++ (' ' :: clause.text.toList ++ [' ']) ++ "from".toList ++ [' '])) :=
    Layout.takes_importNames hindent (by decide)
      (fun heq => Clause.text_ne_empty h (String.toList_eq_nil_iff.1 heq))
      (fun c hc => isClausePart_of_isFrontPart (Clause.plain h c hc)) (by decide) blank_space
  simpa [front] using htakes

theorem takes_importAlone (hindent : ∀ c ∈ indent, isLineBlank c = true) :
    (sequence importLeads).Takes (indent ++ Form.importAlone.front.toList) :=
  Layout.takes_importAlone hindent (List.cons_ne_nil ' ' []) blank_space

theorem takes_braced {names : List String} (h : ∀ name ∈ names, IsIdentifier name) :
    exportList.Takes (braced names).toList ∧
      ∃ more, (braced names).toList = '\x7b' :: more ∧ '\x7d' ∈ more := by
  have hinside : ∀ c ∈ (", ".intercalate names).toList, c ≠ '\x7d' :=
    forall_mem_intercalate (fun c hc heq => absurd (heq ▸ hc) (by decide))
      fun name hname c hc heq => absurd ((h name hname).parts c hc) (by rw [heq]; decide)
  have hnames : '\x7d' ∉ ' ' :: (", ".intercalate names).toList ++ [' '] := by
    simp only [List.cons_append, List.mem_cons, List.mem_append, List.not_mem_nil, or_false, not_or]
    exact ⟨by decide, fun hmem => hinside _ hmem rfl, by decide⟩
  have htext : (braced names).toList =
      '\x7b' :: (' ' :: (", ".intercalate names).toList ++ [' ']) ++ ['\x7d'] := by
    rw [braced, String.toList_append, String.toList_append]
    simp
  rw [htext]
  exact ⟨Layout.takes_exportList hnames, _, rfl, by simp⟩

theorem alias_identifier {name : String} (h : IsIdentifier name) :
    Alias (" as ".toList ++ name.toList) := by
  have hparts : ∀ c ∈ name.toList, (isWordPart c || c == '$') = true := by
    intro c hc
    have hpart := h.parts c hc
    simp only [Bool.or_eq_true, beq_iff_eq] at hpart
    rcases hpart with (hpart | rfl) | rfl
    · rw [isWordPart_of_isAlphanum hpart, Bool.true_or]
    · decide
    · decide
  exact .some (List.cons_ne_nil ' ' []) blank_space (List.cons_ne_nil ' ' []) blank_space
    (fun heq => h.ne_empty (String.toList_eq_nil_iff.1 heq)) hparts

/-- What is `exported` begins with a sign behind the words of an export; a list that it opens it
also closes. -/
theorem exists_exported {exported : Exported}
    (h : ∀ name ∈ exported.identifiers, IsIdentifier name) :
    ∃ words core, ExportWords words ∧
      "export ".toList ++ exported.text.toList = words ++ core ∧
      (Pattern.alt (.seq (word "*") exportAlias) exportList).Takes core ∧
      ∃ sign more, core = sign :: more ∧ (sign = '*' ∨ sign = '\x7b' ∧ '\x7d' ∈ more) := by
  have hexport : ExportWords "export ".toList := .plain (List.cons_ne_nil ' ' []) blank_space
  have htypes : ExportWords "export type ".toList :=
    .types (List.cons_ne_nil ' ' []) blank_space (List.cons_ne_nil ' ' []) blank_space
  have hstar {rename : List Char} (h : Alias rename) :
      (Pattern.alt (.seq (word "*") exportAlias) exportList).Takes ('*' :: rename) :=
    .inl ⟨"*".toList, _, rfl, takes_word.2 rfl, Layout.takes_exportAlias h⟩
  cases exported with
  | all => exact ⟨_, ['*'], hexport, rfl, hstar .none, '*', [], rfl, .inl rfl⟩
  | allAs name =>
    refine ⟨_, '*' :: (" as ".toList ++ name.toList), hexport, ?_,
      hstar (alias_identifier (h name (by simp [Exported.identifiers]))), '*', _, rfl, .inl rfl⟩
    simp [Exported.text]
  | braces names =>
    obtain ⟨htakes, more, hmore, hclosed⟩ := takes_braced h
    exact ⟨_, _, hexport, rfl, .inr htakes, '\x7b', more, hmore, .inr ⟨rfl, hclosed⟩⟩
  | types names =>
    obtain ⟨htakes, more, hmore, hclosed⟩ := takes_braced h
    refine ⟨_, (braced names).toList, htypes, ?_, .inr htakes, '\x7b', more, hmore,
      .inr ⟨rfl, hclosed⟩⟩
    simp [Exported.text]

theorem takes_exports (hindent : ∀ c ∈ indent, isLineBlank c = true) {exported : Exported}
    (h : ∀ name ∈ exported.identifiers, IsIdentifier name) :
    (sequence exportLeads).Takes (indent ++ (Form.exports exported).front.toList) := by
  obtain ⟨words, core, hwords, heq, hcore, -⟩ := exists_exported h
  have htakes := Layout.takes_export hindent hwords hcore blank_space blank_space
  rw [← heq] at htakes
  simpa [front] using htakes

theorem exists_front (form : Form) : ∃ c cs, form.front.toList = c :: cs ∧
    isLineBlank c = false ∧ (c = 'e' → ∃ exported, form = .exports exported) := by
  cases form with
  | imports clause =>
    refine ⟨'i', "mport ".toList ++ clause.text.toList ++ " from ".toList, ?_, by decide, ?_⟩
    · simp [front]
    · exact fun h => absurd h (by decide)
  | importAlone => exact ⟨'i', "mport ".toList, rfl, by decide, fun h => absurd h (by decide)⟩
  | exports exported =>
    refine ⟨'e', "xport ".toList ++ exported.text.toList ++ " from ".toList, ?_, by decide, ?_⟩
    · simp [front]
    · exact fun _ => ⟨exported, rfl⟩
  | requireCall name =>
    refine ⟨'c', "onst ".toList ++ name.toList ++ " = require(".toList, ?_, by decide, ?_⟩
    · simp [front]
    · exact fun h => absurd h (by decide)
  | importCall => exact ⟨'i', "mport(".toList, rfl, by decide, fun h => absurd h (by decide)⟩

/-- A list that an export opens is closed in `form.front`, before the quotes. -/
theorem not_opens_list {form : Form} (h : ∀ name ∈ form.identifiers, IsIdentifier name)
    {words names rest : List Char} (hwords : ExportWords words) (hnames : '\x7d' ∉ names) :
    words ++ '\x7b' :: names ≠ form.front.toList ++ rest := by
  intro heq
  obtain ⟨exported, rfl⟩ : ∃ exported, form = .exports exported := by
    obtain ⟨c, cs, hfront, -, hexports⟩ := exists_front form
    obtain ⟨more, rfl⟩ := hwords.exists_append
    rw [hfront] at heq
    exact hexports (List.cons.inj heq).1.symm
  obtain ⟨words', core, hwords', hfront, -, sign, more, rfl, hsign⟩ := exists_exported h
  have hmark : sign ∈ marks := by rcases hsign with rfl | ⟨rfl, -⟩ <;> decide
  rw [front, String.toList_append, String.toList_append, hfront, List.append_assoc,
    List.append_assoc, List.cons_append] at heq
  obtain ⟨-, heq, hrest⟩ := @eq_of_first (· ∈ marks) _ _ _ _ _ _ heq hwords.unmarked
    hwords'.unmarked (by decide) hmark
  obtain rfl | ⟨-, hclosed⟩ := hsign
  · exact absurd heq (by decide)
  · exact hnames (hrest ▸ List.mem_append_left _ hclosed)

end Form

/-! ## A statement is found -/

theorem isWord_of_opensLine {before : List Char} (h : OpensLine before) :
    isWord before.getLast? = false := by
  obtain ⟨lines, indent, rfl, hlines, hindent⟩ := h
  rw [List.getLast?_append]
  cases hlast : indent.getLast? with
  | none =>
    rw [Option.none_or]
    obtain hlines | hlines := hlines <;> rw [hlines] <;> decide
  | some c =>
    have hblank := hindent c (List.mem_of_getLast? hlast)
    rw [isLineBlank, Bool.or_eq_true, beq_iff_eq, beq_iff_eq] at hblank
    rw [Option.some_or]
    rcases hblank with rfl | rfl <;> decide

theorem not_behindQuote {lines cs : List Char} (hlines : StartsLine lines)
    (hcs : ∀ c ∈ cs, isSpecifierPart c = true) : ¬ BehindQuote (lines ++ cs) := by
  rintro ⟨front, quote, more, heq, hquote, hmore⟩
  have hquoted : ∀ c ∈ quote :: more, c ≠ '\n' := by
    refine List.forall_mem_cons.2 ⟨?_, fun c hc => Find.ne_newline_of_part (hmore c hc)⟩
    rintro rfl
    exact absurd hquote (by decide)
  have hnot {zs : List Char} : cs ≠ zs ++ quote :: more := fun h =>
    Find.not_isQuote_of_part (hcs quote (h ▸ by simp)) hquote
  obtain ⟨zs, -, hzs⟩ | ⟨_ | ⟨z, zs⟩, hline, hzs⟩ := List.append_eq_append_iff.1 heq
  · exact hnot hzs
  · exact @hnot [] hzs.symm
  · -- the line would have ended behind the quote
    obtain ⟨rfl, htail⟩ := List.cons.inj hzs
    rw [hline, StartsLine, List.getLast?_append, List.getLast?_cons, Option.some_or] at hlines
    have hlast := List.mem_of_getLast? (List.getLast?_cons.trans
      (hlines.resolve_left (Option.some_ne_none _)))
    refine hquoted '\n' ?_ rfl
    rw [htail]
    exact List.mem_append_left cs hlast

namespace Statement

variable {s : Statement} {lines : List Char}

theorem mem_specifiers_of_call (h : s.WellFormed) (hlines : StartsLine lines)
    (front keyword : List Char) (hkeyword : keyword = "require".toList ∨ keyword = "import".toList)
    (hlead : s.lead.toList = front ++ (keyword ++ ['('])) (hback : s.form.back = ")")
    (hword : isWord (lines ++ front).getLast? = false) (rest : List Char) :
    (lines.length + s.lead.toList.length + 1, s.specifier.toList) ∈
      specifiers (lines ++ (s.text.toList ++ rest)) := by
  let ending := (if s.ended then ";" else "").toList
  let f : Find := ⟨keyword ++ ['('], s.quote, s.specifier.toList, s.quote, [')'], ending ++ rest⟩
  have htext : lines ++ (s.text.toList ++ rest) = (lines ++ front) ++ f.text := by
    simp [f, ending, Find.text, Find.tail, toList_text, hlead, Statement.tail, hback]
  have hfits : f.Fits callLeads callBacks := by
    refine ⟨?_, h.quote, fun heq => h.ne_empty (String.toList_eq_nil_iff.1 heq), h.parts, h.quote,
      takes_callBacks.2 ⟨[], List.forall_mem_nil _, rfl⟩⟩
    have htakes := Layout.takes_call hkeyword (List.forall_mem_nil _ : Blank [])
      (List.forall_mem_nil _ : Blank [])
    simpa [f] using htakes
  have hstands : Stands .wordEdge (lines ++ front) f.text := by
    simpa [f, Find.text] using Layout.stands_wordEdge hkeyword hword ('(' :: s.quote :: f.tail)
  have hparts := parts_lead h
  rw [hlead, List.forall_mem_append] at hparts
  have hcaptured := mem_captures_callImport hstands hfits fun hquote =>
    absurd hquote (not_behindQuote hlines hparts.1)
  rw [htext]
  refine TextScan.mem_specifiers (List.mem_append_right _ ?_)
  have hlength : (lines ++ front).length + f.lead.length + 1 =
      lines.length + s.lead.toList.length + 1 := by
    rw [hlead]
    simp only [f, List.length_append]
    omega
  rwa [hlength] at hcaptured

/-- **A statement `s` is found** at the start of a line, if no list of names is open there that is
exported. -/
theorem mem_specifiers (h : s.WellFormed) (hlines : StartsLine lines)
    (hopen : ¬ InExportList lines) (rest : List Char) :
    (lines.length + s.lead.toList.length + 1, s.specifier.toList) ∈
      specifiers (lines ++ (s.text.toList ++ rest)) := by
  let f : Find :=
    ⟨s.lead.toList, s.quote, s.specifier.toList, s.quote, [], s.tail.toList ++ rest⟩
  have htext : s.text.toList ++ rest = f.text := by
    simp [f, Find.text, Find.tail, toList_text]
  have hfits {leads : List Pattern} (htakes : (sequence leads).Takes s.lead.toList) :
      f.Fits leads [] :=
    ⟨htakes, h.quote, fun heq => h.ne_empty (String.toList_eq_nil_iff.1 heq), h.parts, h.quote,
      takes_nil⟩
  have hids := h.identifiers
  have hlead : s.lead.toList = s.indent.toList ++ s.form.front.toList := by
    rw [lead, String.toList_append]
  have himport (htakes : (sequence importLeads).Takes s.lead.toList) :
      (lines.length + s.lead.toList.length + 1, s.specifier.toList) ∈
        TextScan.specifiers (lines ++ (s.text.toList ++ rest)) := by
    rw [htext]
    exact TextScan.mem_specifiers (List.mem_append_left _ (List.mem_append_left _
      (mem_captures_staticImport hlines (hfits htakes))))
  cases hform : s.form with
  | imports clause =>
    rw [hform] at hlead hids
    exact himport (hlead ▸ Form.takes_imports h.indent hids)
  | importAlone =>
    rw [hform] at hlead
    exact himport (hlead ▸ Form.takes_importAlone h.indent)
  | exports exported =>
    rw [hform] at hlead hids
    rw [htext]
    exact TextScan.mem_specifiers (List.mem_append_left _ (List.mem_append_right _
      (mem_captures_exportFrom hlines (hfits (hlead ▸ Form.takes_exports h.indent hids))
        fun _ => hopen)))
  | requireCall name =>
    refine mem_specifiers_of_call h hlines (s.indent.toList ++ ("const " ++ name ++ " = ").toList)
      "require".toList (.inl rfl) ?_ ?_ ?_ rest
    · rw [hlead, hform]
      simp [Form.front]
    · rw [hform, Form.back]
    · simp only [String.toList_append, ← List.append_assoc]
      rw [List.getLast?_append]
      exact (by decide : isWord (some ' ') = false)
  | importCall =>
    refine mem_specifiers_of_call h hlines s.indent.toList "import".toList (.inr rfl) ?_ ?_ ?_ rest
    · rw [hlead, hform]
      rfl
    · rw [hform, Form.back]
    · exact isWord_of_opensLine ⟨lines, s.indent.toList, rfl, hlines, h.indent⟩

end Statement

end FlowMigration.TextScan
