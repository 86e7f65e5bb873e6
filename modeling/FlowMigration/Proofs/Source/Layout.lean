import FlowMigration.Proofs.Source.Specifiers

/-!
# Layouts that the text scan reads

How an import has to be written for its text to show it, and that the text scan finds it then.

* `Layout`: what stands between the keyword of an import and the name of the module, and around
  both.
* `Layout.mem_specifiers`: a specifier in such a layout is found, whatever else stands in the text.
-/

namespace FlowMigration.TextScan

open Text Pattern

/-! ## Layouts -/

def Blank (cs : List Char) : Prop := ∀ c ∈ cs, isBlank c = true

/-- A line starts behind the text `before`. -/
def StartsLine (before : List Char) : Prop := before.getLast? = none ∨ before.getLast? = some '\n'

/-- Nothing but its indentation stands in front in the line, behind `before`. -/
def OpensLine (before : List Char) : Prop :=
  ∃ lines indent, before = lines ++ indent ∧ StartsLine lines ∧ ∀ c ∈ indent, isLineBlank c = true

/-- The word `export`, which `type` may follow. -/
inductive ExportWords : List Char → Prop
  | plain {gap : List Char} : gap ≠ [] → Blank gap → ExportWords ("export".toList ++ gap)
  | types {gap gap' : List Char} : gap ≠ [] → Blank gap → gap' ≠ [] → Blank gap' →
      ExportWords ("export".toList ++ gap ++ "type".toList ++ gap')

/-- A new name for all that is exported, or none. -/
inductive Alias : List Char → Prop
  | none : Alias []
  | some {gap gap' name : List Char} : gap ≠ [] → Blank gap → gap' ≠ [] → Blank gap' →
      name ≠ [] → (∀ c ∈ name, (isWordPart c || c == '$') = true) →
      Alias (gap ++ "as".toList ++ gap' ++ name)

/-- A list of names is exported that has begun at the start of a line in `before` and is not
closed. -/
def InExportList (before : List Char) : Prop :=
  ∃ front words names, before = front ++ (words ++ '\x7b' :: names) ∧ OpensLine front ∧
    ExportWords words ∧ '\x7d' ∉ names

/-- **The layouts of an import**: what stands in front of its keyword (`before`), from the keyword
up to the specifier in quotes, the specifier, and what stands behind the quotes. -/
inductive Layout (before : List Char) : List Char → List Char → List Char → Prop
  /-- An import of names, which are words, signs and blanks. -/
  | importNames {first last : Char} {names gap specifier after : List Char} : OpensLine before →
      isBlank first = true → names ≠ [] → (∀ c ∈ names, isClausePart c = true) →
      isBlank last = true → Blank gap →
      Layout before ("import".toList ++ (first :: names ++ [last]) ++ "from".toList ++ gap)
        specifier after
  /-- An import without names. -/
  | importAlone {gap specifier after : List Char} : OpensLine before → gap ≠ [] → Blank gap →
      Layout before ("import".toList ++ gap) specifier after
  /-- A list of names that are handed on. -/
  | exportNames {words names gap gap' specifier after : List Char} : OpensLine before →
      ExportWords words → '\x7d' ∉ names → Blank gap → Blank gap' →
      Layout before (words ++ ('\x7b' :: names ++ ['\x7d']) ++ gap ++ "from".toList ++ gap')
        specifier after
  /-- All names of a module are handed on; no list is open in front. -/
  | exportAll {words rename gap gap' specifier after : List Char} : OpensLine before →
      ExportWords words → Alias rename → Blank gap → Blank gap' → ¬ InExportList before →
      Layout before (words ++ '*' :: rename ++ gap ++ "from".toList ++ gap') specifier after
  /-- A call with one argument, whose text does not close a call itself. -/
  | call {keyword gap gap' gap'' specifier after : List Char} :
      keyword = "require".toList ∨ keyword = "import".toList → isWord before.getLast? = false →
      Blank gap → Blank gap' → Blank gap'' → (specifier.dropWhile isBlank).head? ≠ some ')' →
      Layout before (keyword ++ gap ++ '(' :: gap') specifier (gap'' ++ ')' :: after)

/-! ## Characters -/

def quotes : List Char := ['\'', '"']

theorem isQuote_iff {c : Char} : isQuote c = true ↔ c ∈ quotes := by simp [isQuote, quotes]

/-- A quote stands nowhere in front of the specifier of an import declaration: `importLeads` avoid
them. -/
theorem avoids_importLeads : (sequence importLeads).avoids quotes = true := by decide

theorem avoids_callLeads : (sequence callLeads).avoids quotes = true := by decide

theorem takes_cons {p : Pattern} {ps : List Pattern} {xs ys : List Char} (hp : p.Takes xs)
    (hps : (sequence ps).Takes ys) : (sequence (p :: ps)).Takes (xs ++ ys) :=
  takes_sequence_cons.2 ⟨xs, ys, rfl, hp, hps⟩

theorem takes_nil : (sequence []).Takes [] := takes_sequence_nil.2 rfl

/-! ## Import declarations -/

namespace Find

variable {f g : Find} {leads backs : List Pattern}

/-- Two finds `f` and `g` without a quote in front have the first quote of the text. -/
theorem lead_eq (hf : f.Fits leads backs) (hg : g.Fits leads backs)
    (havoids : (sequence leads).avoids quotes = true) {gap : List Char}
    (hgap : ∃ ys, g.lead = gap ++ ys) (htext : gap ++ f.text = g.text) :
    gap ++ f.lead = g.lead := by
  obtain ⟨ys, hys⟩ := hgap
  have hlead : ∀ c ∈ ys, c ∉ quotes := fun c hc =>
    hg.lead.avoids havoids c (hys ▸ List.mem_append_right gap hc)
  rw [text, text, hys, List.append_assoc, List.append_cancel_left_eq] at htext
  rw [hys, (eq_of_first htext (hf.lead.avoids havoids) hlead (isQuote_iff.1 hf.opening)
    (isQuote_iff.1 hg.opening)).1]

theorem exists_lead (hg : g.Fits leads []) {gap rest : List Char} (htext : gap ++ rest = g.text)
    (hline : StartsLine gap) (hsize : gap.length < g.size) : ∃ ys, g.lead = gap ++ ys := by
  have hback : g.back = [] := takes_sequence_nil.1 hg.back
  obtain ⟨zs, hlead, -⟩ | ⟨zs, hgap, htail⟩ := List.append_eq_append_iff.1 htext
  · exact ⟨zs, hlead⟩
  cases zs with
  | nil => exact ⟨[], by rw [hgap, List.append_nil, List.append_nil]⟩
  | cons z zs =>
    -- The last character of what it goes over is a quote or a part of the specifier, no line end.
    obtain ⟨rfl, hrest⟩ := List.cons.inj htail
    have hlength : zs.length ≤ g.specifier.length := by
      rw [hgap, size, hback, List.length_append, List.length_cons, List.length_nil] at hsize
      omega
    have hstart : zs <+: g.specifier :=
      List.prefix_of_prefix_length_le ⟨_, hrest.symm⟩ ⟨_, rfl⟩ hlength
    have hlast : (g.opening :: zs).getLast? = some '\n' := by
      rw [StartsLine, hgap, List.getLast?_append, List.getLast?_cons, Option.some_or] at hline
      rw [List.getLast?_cons]
      exact hline.resolve_left (Option.some_ne_none _)
    obtain heq | hmem := List.mem_cons.1 (List.mem_of_getLast? hlast)
    · exact absurd (heq ▸ hg.opening) (by decide)
    · exact absurd rfl (ne_newline_of_part (hg.parts _ (hstart.subset hmem)))

end Find

/-! ## Re-exports -/

/-- The signs that say where a re-export goes on: what is exported, and the quotes. -/
def marks : List Char := ['*', '\x7b', '\x7d'] ++ quotes

/-- A text `cs` without such signs. -/
def Unmarked (cs : List Char) : Prop := ∀ c ∈ cs, c ∉ marks

theorem Blank.unmarked {cs : List Char} (h : Blank cs) : Unmarked cs := by
  have hblank : ∀ c ∈ marks, (!isBlank c) = true := List.all_eq_true.1 (by decide)
  exact fun c hc hm => by simpa [h c hc] using hblank c hm

theorem unmarked_of_isLineBlank {cs : List Char} (h : ∀ c ∈ cs, isLineBlank c = true) :
    Unmarked cs := by
  have hblank : ∀ c ∈ marks, (!isLineBlank c) = true := List.all_eq_true.1 (by decide)
  exact fun c hc hm => by simpa [h c hc] using hblank c hm

theorem unmarked_of_all {cs : List Char} (h : (cs.all fun c => !marks.contains c) = true) :
    Unmarked cs := by simpa [Unmarked] using h

theorem Unmarked.append {xs ys : List Char} (hx : Unmarked xs) (hy : Unmarked ys) :
    Unmarked (xs ++ ys) := List.forall_mem_append.2 ⟨hx, hy⟩

theorem Unmarked.unquoted {cs : List Char} (h : Unmarked cs) : ∀ c ∈ cs, c ∉ quotes :=
  fun c hc hquote => h c hc (List.mem_append_right _ hquote)

namespace ExportWords

variable {words : List Char}

theorem unmarked (h : ExportWords words) : Unmarked words := by
  have hexport : Unmarked "export".toList := unmarked_of_all (by decide)
  have htype : Unmarked "type".toList := unmarked_of_all (by decide)
  cases h with
  | plain _ hgap => exact Unmarked.append hexport hgap.unmarked
  | types _ hgap _ hgap' =>
    exact ((Unmarked.append hexport hgap.unmarked).append htype).append hgap'.unmarked

end ExportWords

/-- What leads to the specifier of a re-export, cut at what is exported. -/
inductive ExportLead : List Char → Prop
  | all {indent words tail : List Char} : (∀ c ∈ indent, isLineBlank c = true) →
      ExportWords words → Unmarked tail → ExportLead (indent ++ words ++ '*' :: tail)
  | list {indent words names tail : List Char} : (∀ c ∈ indent, isLineBlank c = true) →
      ExportWords words → '\x7d' ∉ names → Unmarked tail →
      ExportLead (indent ++ words ++ '\x7b' :: (names ++ '\x7d' :: tail))

theorem exportLead_of_takes {lead : List Char} (h : (sequence exportLeads).Takes lead) :
    ExportLead lead := by
  have htail : (sequence [exportAlias, Pattern.blanks, word "from", Pattern.blanks]).avoids marks =
    true := by decide
  have htail' : (sequence [Pattern.blanks, word "from", Pattern.blanks]).avoids marks = true := by
    decide
  rw [exportLeads, takes_sequence_cons] at h
  obtain ⟨indent, _, rfl, hindent, h⟩ := h
  obtain ⟨_, _, rfl, hword, h⟩ := takes_sequence_cons.1 h
  obtain ⟨gap, _, rfl, hgap, h⟩ := takes_sequence_cons.1 h
  obtain ⟨mark, _, rfl, hmark, h⟩ := takes_sequence_cons.1 h
  obtain ⟨core, rest, rfl, hcore, hrest⟩ := takes_sequence_cons.1 h
  obtain rfl := takes_word.1 hword
  obtain ⟨hgap, hblank⟩ := takes_blanks1.1 hgap
  have hwords : ExportWords ("export".toList ++ gap ++ mark) := by
    obtain ⟨_, gap', rfl, htype, hgap'⟩ | rfl := hmark
    · obtain rfl := takes_word.1 htype
      obtain ⟨hgap', hblank'⟩ := takes_blanks1.1 hgap'
      rw [← List.append_assoc]
      exact .types hgap hblank hgap' hblank'
    · rw [List.append_nil]
      exact .plain hgap hblank
  obtain ⟨_, rename, rfl, hstar, hrename⟩ | hlist := hcore
  · obtain rfl := takes_word.1 hstar
    have := ExportLead.all hindent hwords ((takes_cons hrename hrest).avoids htail)
    simpa using this
  · rw [exportList, takes_sequence_cons] at hlist
    obtain ⟨_, _, rfl, hopen, hlist⟩ := hlist
    obtain ⟨names, _, rfl, hnames, hclose⟩ := takes_sequence_cons.1 hlist
    obtain rfl := takes_word.1 hopen
    obtain rfl := takes_word.1 hclose
    have hnames : '\x7d' ∉ names := fun hmem => absurd (hnames _ hmem) (by decide)
    have := ExportLead.list hindent hwords hnames (hrest.avoids htail')
    simpa using this

namespace ExportLead

variable {gap ys opening opening' more more' rest rest' : List Char} {c c' q q' : Char}

/-- A re-export that goes on beyond the start of a line does so behind the sign `c'` for what it
exports, or it is the one that begins there. -/
theorem cut (hopening : Unmarked opening) (hopening' : Unmarked opening')
    (hc : c = '*' ∨ c = '\x7b') (hc' : c' = '*' ∨ c' = '\x7b')
    (htext : ys ++ q' :: rest' = opening ++ c :: (more ++ q :: rest))
    (hgap : opening' ++ c' :: more' = gap ++ ys) :
    (opening' = gap ++ opening ∧ c' = c ∧ more' ++ q' :: rest' = more ++ q :: rest) ∨
      ∃ beyond, gap = opening' ++ c' :: beyond ∧ more' = beyond ++ ys := by
  have hmark {c : Char} (hc : c = '*' ∨ c = '\x7b') : c ∈ marks := by
    obtain rfl | rfl := hc <;> decide
  have same {xs : List Char} (hxs : Unmarked xs) (hys : ys = xs ++ c' :: more') :
      xs = opening ∧ c' = c ∧ more' ++ q' :: rest' = more ++ q :: rest := by
    rw [hys, List.append_assoc, List.cons_append] at htext
    exact eq_of_first htext hxs hopening (hmark hc') (hmark hc)
  obtain ⟨zs, rfl, hmore⟩ | ⟨zs, rfl, hys⟩ := List.append_eq_append_iff.1 hgap
  · cases zs with
    | nil =>
      obtain ⟨rfl, heq⟩ := @same [] (fun _ hx => absurd hx List.not_mem_nil) hmore.symm
      exact .inl ⟨by rw [List.append_nil, List.append_nil], heq⟩
    | cons z zs =>
      obtain ⟨rfl, hover⟩ := List.cons.inj hmore
      exact .inr ⟨zs, rfl, hover⟩
  · obtain ⟨rfl, heq⟩ := same (fun c hc => hopening' c (List.mem_append_right gap hc)) hys
    exact .inl ⟨rfl, heq⟩

/-- A text up to a quote that goes beyond the sign `c` for what is exported is not `Unmarked`. -/
theorem not_unmarked (hopening : Unmarked opening) (hc : c = '*' ∨ c = '\x7b') (hq' : q' ∈ quotes)
    (htext : ys ++ q' :: rest' = opening ++ c :: (more ++ q :: rest)) : ¬ Unmarked ys := by
  intro hys
  have hfront : ∀ x ∈ opening ++ [c], ¬ x ∈ quotes := by
    refine List.forall_mem_append.2 ⟨hopening.unquoted, List.forall_mem_singleton.2 ?_⟩
    obtain rfl | rfl := hc <;> decide
  have htext : ys ++ q' :: rest' = (opening ++ [c]) ++ (more ++ q :: rest) := by
    rw [htext, List.append_assoc, List.singleton_append]
  obtain ⟨zs, rfl, -⟩ := @exists_append_of_first (· ∈ quotes) _ _ _ _ _ htext hq' hfront
  have hmem : c ∈ opening ++ [c] ++ zs := by simp
  obtain rfl | rfl := hc
  · exact hys _ hmem (by decide)
  · exact hys _ hmem (by decide)

/-- What goes on beyond a part of a list and behind it holds a sign, so it ends no list, which is in
`beyond`. -/
theorem exists_names {names' tail' beyond : List Char} (hnames' : '\x7d' ∉ names')
    (htail' : Unmarked tail') (hys : ¬ Unmarked ys)
    (hover : names' ++ '\x7d' :: tail' = beyond ++ ys) :
    '\x7d' ∉ beyond ∧ ∃ zs, names' = beyond ++ zs ∧ ys = zs ++ '\x7d' :: tail' := by
  have inside {zs : List Char} (h : names' = beyond ++ zs) : '\x7d' ∉ beyond := fun hmem =>
    hnames' (h ▸ List.mem_append_left zs hmem)
  obtain ⟨zs, hzs, htail⟩ | ⟨zs, hzs, htail⟩ := List.append_eq_append_iff.1 hover
  · cases zs with
    | nil =>
      have hzs : names' = beyond ++ [] := by rw [hzs, List.append_nil, List.append_nil]
      exact ⟨inside hzs, [], hzs, htail.symm⟩
    | cons z zs =>
      obtain ⟨rfl, rfl⟩ := List.cons.inj htail
      exact absurd (fun c hc => htail' c (List.mem_append_right zs hc)) hys
  · exact ⟨inside hzs, zs, hzs, htail⟩

theorem unmarked {indent words : List Char} (hindent : ∀ c ∈ indent, isLineBlank c = true)
    (hwords : ExportWords words) : Unmarked (indent ++ words) :=
  (unmarked_of_isLineBlank hindent).append hwords.unmarked

variable {front indent words names tail lead' : List Char}

/-- One that exports all names, where no list is open. -/
theorem all_lead_eq (hindent : ∀ c ∈ indent, isLineBlank c = true) (hwords : ExportWords words)
    (htail : Unmarked tail) (h' : ExportLead lead') (hq : q ∈ quotes) (hq' : q' ∈ quotes)
    (hgap : lead' = gap ++ ys)
    (htext : ys ++ q' :: rest' = indent ++ words ++ '*' :: (tail ++ q :: rest))
    (hfront : StartsLine front) (hopen : ¬ InExportList (front ++ gap)) :
    gap ++ (indent ++ words ++ '*' :: tail) = lead' := by
  have hopening := unmarked hindent hwords
  have hmarked := not_unmarked hopening (.inl rfl) hq' htext
  cases h' with
  | @all indent' words' tail' hindent' hwords' htail' =>
    obtain ⟨heq, -, hmore⟩ | ⟨beyond, -, rfl⟩ :=
      cut hopening (unmarked hindent' hwords') (.inl rfl) (.inl rfl) htext hgap
    · rw [heq, (eq_of_first hmore htail'.unquoted htail.unquoted hq' hq).1]
      simp
    · exact absurd (fun c hc => htail' c (List.mem_append_right beyond hc)) hmarked
  | @list indent' words' names' tail' hindent' hwords' hnames' htail' =>
    obtain ⟨-, heq, -⟩ | ⟨beyond, rfl, hover⟩ :=
      cut hopening (unmarked hindent' hwords') (.inl rfl) (.inr rfl) htext hgap
    · exact absurd heq (by decide)
    · obtain ⟨hclosed, -⟩ := exists_names hnames' htail' hmarked hover
      exact absurd ⟨front ++ indent', words', beyond, by simp,
        ⟨front, indent', rfl, hfront, hindent'⟩, hwords', hclosed⟩ hopen

/-- One that exports a list of names. -/
theorem list_lead_eq (hindent : ∀ c ∈ indent, isLineBlank c = true) (hwords : ExportWords words)
    (hnames : '\x7d' ∉ names) (htail : Unmarked tail) (h' : ExportLead lead') (hq : q ∈ quotes)
    (hq' : q' ∈ quotes) (hgap : lead' = gap ++ ys)
    (htext : ys ++ q' :: rest' =
      indent ++ words ++ '\x7b' :: ((names ++ '\x7d' :: tail) ++ q :: rest)) :
    gap ++ (indent ++ words ++ '\x7b' :: (names ++ '\x7d' :: tail)) = lead' := by
  have hopening := unmarked hindent hwords
  have hmarked := not_unmarked hopening (.inr rfl) hq' htext
  cases h' with
  | @all indent' words' tail' hindent' hwords' htail' =>
    obtain ⟨-, heq, -⟩ | ⟨beyond, -, rfl⟩ :=
      cut hopening (unmarked hindent' hwords') (.inr rfl) (.inl rfl) htext hgap
    · exact absurd heq (by decide)
    · exact absurd (fun c hc => htail' c (List.mem_append_right beyond hc)) hmarked
  | @list indent' words' names' tail' hindent' hwords' hnames' htail' =>
    -- The first brace that closes, and behind it the first quote, belong to both.
    have ends {xs zs : List Char} (hxs : '\x7d' ∉ xs) (hzs : '\x7d' ∉ zs)
        (heq : xs ++ '\x7d' :: (tail' ++ q' :: rest') = zs ++ '\x7d' :: (tail ++ q :: rest)) :
        xs = zs ∧ tail' = tail := by
      obtain ⟨hlist, -, hmore⟩ := @eq_of_first (· = '\x7d') _ _ _ _ _ _ heq
        (fun _ hx h => hxs (h ▸ hx)) (fun _ hz h => hzs (h ▸ hz)) rfl rfl
      exact ⟨hlist, (eq_of_first hmore htail'.unquoted htail.unquoted hq' hq).1⟩
    obtain ⟨heq, -, hmore⟩ | ⟨beyond, rfl, hover⟩ :=
      cut hopening (unmarked hindent' hwords') (.inr rfl) (.inr rfl) htext hgap
    · obtain ⟨rfl, rfl⟩ := ends hnames' hnames (by simpa using hmore)
      rw [heq]
      simp
    · obtain ⟨-, zs, rfl, rfl⟩ := exists_names hnames' htail' hmarked hover
      have hlead : '\x7d' ∉ indent ++ words ++ '\x7b' :: names := by
        simp only [List.mem_append (t := '\x7b' :: names), List.mem_cons, not_or]
        exact ⟨fun hmem => hopening _ hmem (by decide), by decide, hnames⟩
      obtain ⟨rfl, rfl⟩ := ends (fun hmem => hnames' (List.mem_append_right beyond hmem)) hlead
        (by simpa using htext)
      simp

end ExportLead

/-- **Two re-exports share a quote** if the `gap` of the one reaches the other, unless that exports
all names while a list is open. -/
theorem ExportLead.lead_eq {front gap lead lead' rest rest' : List Char} {q q' : Char}
    (h : ExportLead lead) (h' : ExportLead lead') (hq : q ∈ quotes) (hq' : q' ∈ quotes)
    (hgap : ∃ ys, lead' = gap ++ ys) (htext : gap ++ (lead ++ q :: rest) = lead' ++ q' :: rest')
    (hfront : StartsLine front) (hopen : '\x7b' ∉ lead → ¬ InExportList (front ++ gap)) :
    gap ++ lead = lead' := by
  obtain ⟨ys, hys⟩ := hgap
  rw [hys, List.append_assoc, List.append_cancel_left_eq] at htext
  cases h with
  | @all indent words tail hindent hwords htail =>
    have hlead : '\x7b' ∉ indent ++ words ++ '*' :: tail := by
      simp only [List.mem_append (t := '*' :: tail), List.mem_cons, not_or]
      exact ⟨fun hmem => unmarked hindent hwords _ hmem (by decide), by decide,
        fun hmem => htail _ hmem (by decide)⟩
    exact all_lead_eq hindent hwords htail h' hq hq' hys
      (by rw [← htext, List.append_assoc, List.cons_append]) hfront (hopen hlead)
  | list hindent hwords hnames htail =>
    exact list_lead_eq hindent hwords hnames htail h' hq hq' hys
      (by rw [← htext, List.append_assoc, List.cons_append])

/-! ## What is found at the start of a line -/

theorem stands_lineStart {before rest : List Char} :
    Stands .lineStart before rest ↔ StartsLine before := by
  simp [Stands, Comes, StartsLine, Place.behind]

theorem StartsLine.of_append {front gap : List Char} (h : StartsLine (front ++ gap)) :
    StartsLine gap := by
  rw [StartsLine, List.getLast?_append] at h
  cases hgap : gap.getLast? with
  | none => exact .inl hgap
  | some c => rwa [hgap, Option.some_or, ← hgap] at h

/-- A find `f` at the start of a line is captured if it has its lead in common with those that reach
it. -/
theorem mem_captures_of_line {leads : List Pattern} (hleads : (sequence leads).IsPlain = true)
    {lines : List Char} (hlines : StartsLine lines) {f : Find} (hf : f.Fits leads [])
    (hsame : ∀ (front gap : List Char) (g : Find), lines = front ++ gap → StartsLine front →
      g.Fits leads [] → (∃ ys, g.lead = gap ++ ys) → gap ++ f.text = g.text →
        gap ++ f.lead = g.lead) :
    (lines.length + f.lead.length + 1, f.specifier) ∈
      captures (sequence (.lineStart :: (leads ++ specifier :: []))) (lines ++ f.text) := by
  refine mem_captures_of_fits (.inl rfl) hleads rfl hf (stands_lineStart.2 hlines) ?_
  intro front gap g hfront hg hstands htext hsize
  have hgap : StartsLine gap := (hfront ▸ hlines).of_append
  rw [← hsame front gap g hfront (stands_lineStart.1 hstands) hg
    (Find.exists_lead hg htext hgap hsize) htext, List.length_append]

theorem mem_captures_staticImport {lines : List Char} (hlines : StartsLine lines) {f : Find}
    (hf : f.Fits importLeads []) :
    (lines.length + f.lead.length + 1, f.specifier) ∈ captures staticImport (lines ++ f.text) :=
  mem_captures_of_line isPlain_importLeads hlines hf fun _ _ _ _ _ hg hgap htext =>
    Find.lead_eq hf hg avoids_importLeads hgap htext

theorem mem_captures_exportFrom {lines : List Char} (hlines : StartsLine lines) {f : Find}
    (hf : f.Fits exportLeads []) (hopen : '\x7b' ∉ f.lead → ¬ InExportList lines) :
    (lines.length + f.lead.length + 1, f.specifier) ∈ captures exportFrom (lines ++ f.text) :=
  mem_captures_of_line isPlain_exportLeads hlines hf fun _ _ _ hfront hline hg hgap htext =>
    (exportLead_of_takes hf.lead).lead_eq (exportLead_of_takes hg.lead) (isQuote_iff.1 hf.opening)
      (isQuote_iff.1 hg.opening) hgap htext hline (hfront ▸ hopen)

/-! ## Calls -/

theorem head_callLeads {lead : List Char} (h : (sequence callLeads).Takes lead) :
    ∃ c rest, lead = c :: rest ∧ c ∉ quotes ∧ isBlank c = false ∧ c ≠ ')' := by
  obtain ⟨_, rest, rfl, hword, -⟩ := takes_sequence_cons.1 h
  obtain hword | hword := hword
  all_goals
    obtain rfl := takes_word.1 hword
    exact ⟨_, _, rfl, by decide, by decide, by decide⟩

theorem takes_callBacks {back : List Char} :
    (sequence callBacks).Takes back ↔ ∃ gap, Blank gap ∧ back = gap ++ [')'] := by
  simp only [callBacks, takes_sequence_cons, takes_sequence_nil, takes_blanks, takes_word]
  constructor
  · rintro ⟨gap, _, rfl, hgap, _, _, rfl, rfl, rfl⟩
    exact ⟨gap, hgap, rfl⟩
  · rintro ⟨gap, hgap, rfl⟩
    exact ⟨gap, _, rfl, hgap, _, [], rfl, rfl, rfl⟩

/-- A specifier `cs` that does not begin as a call is closed goes on up to its quote. -/
theorem not_closed {cs rest back after : List Char} {q : Char} (hq : isQuote q = true)
    (hback : (sequence callBacks).Takes back) (hclose : (cs.dropWhile isBlank).head? ≠ some ')') :
    cs ++ q :: rest ≠ back ++ after := by
  intro heq
  obtain ⟨gap, hgap, rfl⟩ := takes_callBacks.1 hback
  have hquote : ∀ q ∈ quotes, (!isBlank q && q != ')') = true := List.all_eq_true.1 (by decide)
  obtain ⟨hblank, hne⟩ : isBlank q = false ∧ q ≠ ')' := by
    simpa using hquote q (isQuote_iff.1 hq)
  have hdrop : (cs ++ q :: rest).dropWhile isBlank = ')' :: after := by
    rw [heq, List.append_assoc, List.dropWhile_append_of_pos hgap]
    rfl
  rw [List.dropWhile_append] at hdrop
  split at hdrop
  · rw [List.dropWhile_cons_of_neg (by simp [hblank])] at hdrop
    exact hne (List.cons.inj hdrop).1
  · next hcs =>
    refine hclose ?_
    rw [List.isEmpty_iff] at hcs
    obtain ⟨c, more, hmore⟩ := List.exists_cons_of_ne_nil hcs
    rw [hmore, List.cons_append] at hdrop
    rw [hmore, List.head?_cons, (List.cons.inj hdrop).1]

/-- Up to where a call is closed, in `back`, no other one begins. -/
theorem length_le_of_close {back after us rest : List Char} {c : Char}
    (hback : (sequence callBacks).Takes back) (hblank : isBlank c = false) (hne : c ≠ ')')
    (heq : back ++ after = us ++ c :: rest) : back.length ≤ us.length := by
  obtain ⟨bs, rfl, -⟩ | ⟨bs, hbs, hafter⟩ := List.append_eq_append_iff.1 heq
  · rw [List.length_append]
    exact Nat.le_add_right _ _
  cases bs with
  | nil => exact Nat.le_of_eq (by rw [hbs, List.append_nil])
  | cons b bs =>
    obtain ⟨gap, hgap, rfl⟩ := takes_callBacks.1 hback
    have hmem : c ∈ gap ++ [')'] := by
      rw [hbs, (List.cons.inj hafter).1]
      simp
    obtain hmem | hmem := List.mem_append.1 hmem
    · rw [hgap c hmem] at hblank
      cases hblank
    · exact absurd (List.mem_singleton.1 hmem) hne

/-- A quote stands in `before` in the line, and no other one since. -/
def BehindQuote (before : List Char) : Prop :=
  ∃ front quote cs, before = front ++ quote :: cs ∧ isQuote quote = true ∧
    ∀ c ∈ cs, isSpecifierPart c = true

/-- **A call is captured**: what reaches the find `f` from the front ends in its first quote, unless
a quote stands in front in the line (`BehindQuote`) and the text of the call closes a call
itself. -/
theorem mem_captures_callImport {before : List Char} {f : Find}
    (hstands : Stands .wordEdge before f.text) (hf : f.Fits callLeads callBacks)
    (hclose : BehindQuote before → (f.specifier.dropWhile isBlank).head? ≠ some ')') :
    (before.length + f.lead.length + 1, f.specifier) ∈ captures callImport (before ++ f.text) := by
  refine mem_captures_of_fits (.inr rfl) isPlain_callLeads isPlain_callBacks hf hstands ?_
  intro front gap g hfront hg _ htext hsize
  obtain ⟨c, rest, hlead, hquote, hblank, hne⟩ := head_callLeads hf.lead
  have hhead : f.text = c :: (rest ++ f.opening :: f.tail) := by
    rw [Find.text, hlead, List.cons_append]
  have hfirst {q : Char} {cs : List Char} (hq : isQuote q = true) : q :: cs ≠ f.text := fun heq =>
    hquote ((List.cons.inj (heq.trans hhead)).1 ▸ isQuote_iff.1 hq)
  -- Otherwise the call begins behind the opening quote of what reaches it,
  obtain ⟨ys, hys, -⟩ | ⟨zs, hgap, hrest⟩ := List.append_eq_append_iff.1 htext
  · rw [← Find.lead_eq hf hg avoids_callLeads ⟨ys, hys⟩ htext, List.length_append]
  exfalso
  cases zs with
  | nil => exact hfirst hg.opening hrest
  | cons z zs =>
    obtain ⟨us, rfl, hus⟩ | ⟨us, hspecifier, hus⟩ :=
      List.append_eq_append_iff.1 (List.cons.inj hrest).2
    · -- but not behind the specifier,
      cases us with
      | nil => exact hfirst hg.closing hus
      | cons u us =>
        have hle := length_le_of_close hg.back hblank hne (hhead ▸ (List.cons.inj hus).2)
        rw [hgap] at hsize
        simp only [Find.size, List.length_append, List.length_cons] at hsize
        omega
    · -- and not inside it either, whose closing quote would be the first one of the call.
      have hunquoted : ∀ x ∈ us, x ∉ quotes := fun x hx hq =>
        Find.not_isQuote_of_part (hg.parts x (hspecifier ▸ List.mem_append_right zs hx))
          (isQuote_iff.2 hq)
      obtain ⟨-, -, htail⟩ := eq_of_first hus (hf.lead.avoids avoids_callLeads) hunquoted
        (isQuote_iff.1 hf.opening) (isQuote_iff.1 hg.closing)
      refine not_closed hf.closing hg.back (hclose ?_) htail
      obtain rfl : g.opening = z := (List.cons.inj hrest).1
      exact ⟨front ++ g.lead, g.opening, zs, by rw [hfront, hgap, List.append_assoc], hg.opening,
        fun x hx => hg.parts x (hspecifier ▸ List.mem_append_left us hx)⟩

/-! ## Layouts are found -/

namespace Layout

theorem takes_importNames {indent gap names : List Char} {first last : Char}
    (hindent : ∀ c ∈ indent, isLineBlank c = true) (hfirst : isBlank first = true)
    (hnames : names ≠ []) (hparts : ∀ c ∈ names, isClausePart c = true)
    (hlast : isBlank last = true) (hgap : Blank gap) :
    (sequence importLeads).Takes (indent ++
      ("import".toList ++ (first :: names ++ [last]) ++ "from".toList ++ gap)) := by
  have hone {c : Char} (hc : isBlank c = true) : blanks1.Takes [c] :=
    takes_blanks1.2 ⟨List.cons_ne_nil c [], List.forall_mem_singleton.2 hc⟩
  have hclause := takes_cons
    (takes_some1.2 ⟨hnames, hparts⟩ : (some1 false isClausePart).Takes names)
    (takes_cons (hone hlast) (takes_cons (takes_word.2 rfl : (word "from").Takes _)
      (takes_cons (p := Pattern.blanks) hgap takes_nil)))
  have := takes_cons (p := .many true isLineBlank) hindent
    (takes_cons (takes_word.2 rfl : (word "import").Takes _) (takes_cons (hone hfirst)
      (takes_cons (p := .optional (.seq (.alt (word "type") (word "typeof")) blanks1)) (.inr rfl)
        (takes_cons (p := .optional _) (.inl hclause) takes_nil))))
  simpa [importLeads] using this

theorem takes_importAlone {indent gap : List Char} (hindent : ∀ c ∈ indent, isLineBlank c = true)
    (hne : gap ≠ []) (hgap : Blank gap) :
    (sequence importLeads).Takes (indent ++ ("import".toList ++ gap)) := by
  have := takes_cons (p := .many true isLineBlank) hindent
    (takes_cons (takes_word.2 rfl : (word "import").Takes _)
      (takes_cons (takes_blanks1.2 ⟨hne, hgap⟩)
        (takes_cons (p := .optional (.seq (.alt (word "type") (word "typeof")) blanks1)) (.inr rfl)
          (takes_cons (p := .optional (sequence [some1 false isClausePart, blanks1, word "from",
            Pattern.blanks])) (.inr rfl) takes_nil))))
  simpa [importLeads] using this

/-- What is exported, `core`, between its words and the specifier. -/
theorem takes_export {indent words core gap gap' : List Char}
    (hindent : ∀ c ∈ indent, isLineBlank c = true) (hwords : ExportWords words)
    (hcore : (Pattern.alt (.seq (word "*") exportAlias) exportList).Takes core)
    (hgap : Blank gap) (hgap' : Blank gap') :
    (sequence exportLeads).Takes (indent ++ (words ++ core ++ gap ++ "from".toList ++ gap')) := by
  have hrest := takes_cons hcore (takes_cons (p := Pattern.blanks) hgap
    (takes_cons (takes_word.2 rfl : (word "from").Takes _)
      (takes_cons (p := Pattern.blanks) hgap' takes_nil)))
  have hexport : (word "export").Takes "export".toList := takes_word.2 rfl
  cases hwords with
  | plain hne hblank =>
    have := takes_cons (p := .many true isLineBlank) hindent (takes_cons hexport
      (takes_cons (takes_blanks1.2 ⟨hne, hblank⟩)
        (takes_cons (p := .optional (.seq (word "type") blanks1)) (.inr rfl) hrest)))
    simpa [exportLeads] using this
  | types hne hblank hne' hblank' =>
    have htype : (Pattern.seq (word "type") blanks1).Takes _ :=
      ⟨_, _, rfl, takes_word.2 rfl, takes_blanks1.2 ⟨hne', hblank'⟩⟩
    have := takes_cons (p := .many true isLineBlank) hindent (takes_cons hexport
      (takes_cons (takes_blanks1.2 ⟨hne, hblank⟩)
        (takes_cons (p := .optional _) (.inl htype) hrest)))
    simpa [exportLeads] using this

theorem takes_exportList {names : List Char} (hnames : '\x7d' ∉ names) :
    exportList.Takes ('\x7b' :: names ++ ['\x7d']) := by
  have hpart : (many true (· != '\x7d')).Takes names := fun c hc =>
    bne_iff_ne.2 fun heq => hnames (heq ▸ hc)
  have := takes_cons (takes_word.2 rfl : (word "\x7b").Takes _)
    (takes_cons hpart (takes_cons (takes_word.2 rfl : (word "\x7d").Takes _) takes_nil))
  simpa [exportList] using this

theorem takes_exportAlias {rename : List Char} (h : Alias rename) : exportAlias.Takes rename := by
  cases h with
  | none => exact .inr rfl
  | some hne hgap hne' hgap' hname hparts =>
    refine .inl ?_
    have hlast : (some1 true fun c => isWordPart c || c == '$').Takes _ :=
      takes_some1.2 ⟨hname, hparts⟩
    have := takes_cons (takes_blanks1.2 ⟨hne, hgap⟩)
      (takes_cons (takes_word.2 rfl : (word "as").Takes _)
        (takes_cons (takes_blanks1.2 ⟨hne', hgap'⟩) (takes_cons hlast takes_nil)))
    simpa using this

theorem takes_call {keyword gap gap' : List Char}
    (hkeyword : keyword = "require".toList ∨ keyword = "import".toList) (hgap : Blank gap)
    (hgap' : Blank gap') : (sequence callLeads).Takes (keyword ++ gap ++ '(' :: gap') := by
  have hword : (Pattern.alt (word "require") (word "import")).Takes keyword :=
    hkeyword.imp takes_word.2 takes_word.2
  have := takes_cons hword (takes_cons (p := Pattern.blanks) hgap
    (takes_cons (takes_word.2 rfl : (word "(").Takes _)
      (takes_cons (p := Pattern.blanks) hgap' takes_nil)))
  simpa [callLeads] using this

theorem inExportList_indent {lines indent : List Char} (h : InExportList lines)
    (hindent : ∀ c ∈ indent, isLineBlank c = true) : InExportList (lines ++ indent) := by
  obtain ⟨front, words, names, rfl, hfront, hwords, hnames⟩ := h
  refine ⟨front, words, names ++ indent, by simp, hfront, hwords, fun hmem => ?_⟩
  obtain hmem | hmem := List.mem_append.1 hmem
  · exact hnames hmem
  · exact absurd (hindent _ hmem) (by decide)

theorem stands_wordEdge {before keyword : List Char}
    (hkeyword : keyword = "require".toList ∨ keyword = "import".toList)
    (hword : isWord before.getLast? = false) (rest : List Char) :
    Stands .wordEdge before (keyword ++ rest) := by
  refine ⟨?_, rfl⟩
  simp only [Place.behind, hword]
  obtain rfl | rfl := hkeyword
  · exact (by decide : (false != isWord (some 'r')) = true)
  · exact (by decide : (false != isWord (some 'i')) = true)

variable {before lead specifier after : List Char} {quote : Char}

/-- **A `specifier` in such a `Layout` is found** by the text scan. -/
theorem mem_specifiers (h : Layout before lead specifier after) (hquote : isQuote quote = true)
    (hne : specifier ≠ []) (hparts : ∀ c ∈ specifier, isSpecifierPart c = true) :
    (before.length + lead.length + 1, specifier) ∈
      specifiers (before ++ (lead ++ quote :: (specifier ++ quote :: after))) := by
  refine TextScan.mem_specifiers (List.mem_append.2 ?_)
  -- The find at the start of the line, of which the indentation is a part.
  have fits {leads : List Pattern} {indent : List Char}
      (htakes : (sequence leads).Takes (indent ++ lead)) :
      (⟨indent ++ lead, quote, specifier, quote, [], after⟩ : Find).Fits leads [] :=
    ⟨htakes, hquote, hne, hparts, hquote, takes_sequence_nil.2 rfl⟩
  have unindent {p : Pattern} {lines indent : List Char}
      (h : (lines.length + (indent ++ lead).length + 1, specifier) ∈ captures p
        (lines ++ (⟨indent ++ lead, quote, specifier, quote, [], after⟩ : Find).text)) :
      ((lines ++ indent).length + lead.length + 1, specifier) ∈ captures p
        (lines ++ indent ++ (lead ++ quote :: (specifier ++ quote :: after))) := by
    simpa [Find.text, Find.tail, Nat.add_assoc] using h
  cases h with
  | importNames hline hfirst hnames hclause hlast hgap =>
    obtain ⟨lines, indent, rfl, hlines, hindent⟩ := hline
    have htakes := takes_importNames hindent hfirst hnames hclause hlast hgap
    exact .inl (List.mem_append_left _ (unindent (mem_captures_staticImport hlines (fits htakes))))
  | importAlone hline hgap hblank =>
    obtain ⟨lines, indent, rfl, hlines, hindent⟩ := hline
    have htakes := takes_importAlone hindent hgap hblank
    exact .inl (List.mem_append_left _ (unindent (mem_captures_staticImport hlines (fits htakes))))
  | exportNames hline hwords hnames hgap hgap' =>
    obtain ⟨lines, indent, rfl, hlines, hindent⟩ := hline
    have htakes := takes_export hindent hwords (.inr (takes_exportList hnames)) hgap hgap'
    refine .inl (List.mem_append_right _
      (unindent (mem_captures_exportFrom hlines (fits htakes) ?_)))
    exact fun hmem => absurd (by simp) hmem
  | exportAll hline hwords hrename hgap hgap' hopen =>
    obtain ⟨lines, indent, rfl, hlines, hindent⟩ := hline
    have htakes := takes_export hindent hwords
      (.inl ⟨"*".toList, _, rfl, takes_word.2 rfl, takes_exportAlias hrename⟩) hgap hgap'
    refine .inl (List.mem_append_right _
      (unindent (mem_captures_exportFrom hlines (fits htakes) ?_)))
    exact fun _ hlist => hopen (inExportList_indent hlist hindent)
  | @call keyword gap gap' gap'' _ after hkeyword hword hgap hgap' hgap'' hclose =>
    let f : Find := ⟨keyword ++ gap ++ '(' :: gap', quote, specifier, quote, gap'' ++ [')'], after⟩
    have hfits : f.Fits callLeads callBacks :=
      ⟨takes_call hkeyword hgap hgap', hquote, hne, hparts, hquote,
        takes_callBacks.2 ⟨gap'', hgap'', rfl⟩⟩
    have hstands : Stands .wordEdge before f.text := by
      simpa [f, Find.text] using
        stands_wordEdge hkeyword hword (gap ++ '(' :: (gap' ++ quote :: f.tail))
    refine .inr ?_
    simpa [f, Find.text, Find.tail] using mem_captures_callImport hstands hfits fun _ => hclose

end Layout

end FlowMigration.TextScan
