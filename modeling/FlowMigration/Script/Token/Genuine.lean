import FlowMigration.Script.Token.Lexer

/-! # Tokens stand in the source

No word and no value is made up: a token that is a word, a text in quotes or an opening parenthesis
is what code holds at its place.

* `Token.next_genuine`, `Token.reread_genuine`: this holds of every token that is read.
* `Reading.quotes_code`: a text in quotes carries the value of the literal at its place.
* `Reading.length_pos_of_word`: a word takes up something.
* `Token.next_start`: the token read at a place starts there or later.
-/

namespace FlowMigration.Script

namespace Lexeme

/-- A word or a text in quotes: a `Lexeme` that may ask for a module or name one. -/
def isSpelled : Lexeme → Bool
  | .text _ | .word _ => true
  | _ => false

/-- Neither a text in quotes nor a word, nor the parenthesis that opens a call: a `Lexeme` of no
`Frame`. -/
def isOther : Lexeme → Bool
  | .text _ | .word _ => false
  | .mark sign => sign != "("
  | _ => true

end Lexeme

namespace Reading

/-- A reading of `text` is the one in code, except for lexemes that name no module and ask for
none. -/
def Genuine (reading : Reading) (text : List Char) : Prop :=
  reading.lexeme.isOther = false → reading = code text

/-! ## Words and texts in quotes -/

theorem lexeme_scanWord (skip : Nat) (name : List Char) (length : Nat) (faulty : Bool)
    (cs : List Char) : ∃ word, (scanWord skip name length faulty cs).lexeme = .word word := by
  fun_induction scanWord <;> simp_all

theorem le_length_scanWord (skip : Nat) (name : List Char) (length : Nat) (faulty : Bool)
    (cs : List Char) : length ≤ (scanWord skip name length faulty cs).length := by
  fun_induction scanWord <;> first | exact Nat.le_refl _ | omega

theorem isSpelled_scanTemplate (length : Nat) (cs : List Char) :
    (scanTemplate length cs).lexeme.isSpelled = false := by
  fun_induction scanTemplate <;> simp_all [Lexeme.isSpelled, broken]

theorem isSpelled_ofMark (text : List Char) (marks : List String) :
    ((ofMark text marks).getD (broken 1)).lexeme.isSpelled = false := by
  unfold ofMark
  cases marks.find? _ <;> rfl

theorem isSpelled_finish (text : List Char) (sound faulty : Bool) (length : Nat) :
    (Number.finish text sound faulty length).lexeme.isSpelled = false := by
  unfold Number.finish
  split
  · split <;> rfl
  · rfl

theorem isSpelled_exponent (text : List Char) (faulty : Bool) (length : Nat) :
    (Number.exponent text faulty length).lexeme.isSpelled = false := by
  unfold Number.exponent
  simp only
  split <;> (try split) <;> exact isSpelled_finish _ _ _ _

theorem isSpelled_decimal (text : List Char) : (Number.decimal text).lexeme.isSpelled = false := by
  unfold Number.decimal
  simp only
  split
  · exact isSpelled_exponent _ _ _
  · exact isSpelled_finish _ _ _ _
  · exact isSpelled_exponent _ _ _

theorem isSpelled_based (isDigit : Char → Bool) (text : List Char) :
    (Number.based isDigit text).lexeme.isSpelled = false := by
  unfold Number.based
  simp only
  split
  · rfl
  · split <;> exact isSpelled_finish _ _ _ _

theorem isSpelled_leadingZero (text : List Char) :
    (Number.leadingZero text).lexeme.isSpelled = false := by
  unfold Number.leadingZero
  simp only
  split
  · exact isSpelled_finish _ _ _ _
  · split
    · exact isSpelled_exponent _ _ _
    · exact isSpelled_exponent _ _ _
    · exact isSpelled_finish _ _ _ _

theorem isSpelled_number (text : List Char) : (Number.ofText text).lexeme.isSpelled = false := by
  unfold Number.ofText
  split
  · exact isSpelled_exponent _ _ _
  · repeat' split
    all_goals first
      | exact isSpelled_based _ _
      | exact isSpelled_leadingZero _
      | exact isSpelled_decimal _
  · exact isSpelled_decimal _

/-- A word or a text in quotes that `code` reads is read as what it looks like, by `word` or
`Literal.ofText`. -/
theorem spelled_code (text : List Char) :
    (code text).lexeme.isSpelled = false ∨ code text = word text ∨
      ∃ literal, Literal.ofText text = some literal ∧
        code text = ⟨.text literal.value, literal.length, literal.faulty⟩ := by
  unfold code
  split
  · exact .inl rfl
  · next c rest =>
    split
    · exact .inr (.inl rfl)
    · split
      · split
        · next literal h => exact .inr (.inr ⟨literal, h, rfl⟩)
        · exact .inl rfl
      · split
        · exact .inl (isSpelled_scanTemplate 1 rest)
        · split
          · exact .inl (isSpelled_number _)
          · split
            · split <;> exact .inl rfl
            · exact .inl (isSpelled_ofMark _ _)

/-- **A text in quotes** that is read in code is the literal that `text` begins with. -/
theorem quotes_code {text : List Char} {value : String} (h : (code text).lexeme = .text value) :
    ∃ literal, Literal.ofText text = some literal ∧ literal.value = value ∧
      literal.length = (code text).length := by
  rcases spelled_code text with hnone | hword | ⟨literal, hliteral, hcode⟩
  · rw [h] at hnone
    cases hnone
  · obtain ⟨name, hname⟩ := lexeme_scanWord 0 [] 0 false text
    rw [hword, word, hname] at h
    cases h
  · rw [hcode, Lexeme.text.injEq] at h
    exact ⟨literal, hliteral, h, by rw [hcode]⟩

/-- **A word** that `code` reads takes up something. -/
theorem length_pos_of_word {text : List Char} {name : String}
    (h : (code text).lexeme = .word name) (hne : name ≠ "") : 0 < (code text).length := by
  rcases spelled_code text with hnone | hword | ⟨literal, -, hcode⟩
  · rw [h] at hnone
    cases hnone
  · rw [hword, word] at h ⊢
    cases text with
    | nil => exact absurd (Lexeme.word.inj h).symm hne
    | cons c rest =>
      rw [scanWord] at h ⊢
      split
      · exact le_length_scanWord 0 [c] 1 false rest
      · split
        · exact le_length_scanWord _ _ 1 _ rest
        · next hpart hescape =>
          rw [if_neg hpart, if_neg hescape] at h
          exact absurd (Lexeme.word.inj h).symm hne
  · rw [hcode] at h
    cases h

/-! ## Other forms -/

theorem genuine_code (text : List Char) : (code text).Genuine text := fun _ => rfl

theorem genuine_of_isOther {reading : Reading} {text : List Char}
    (h : reading.lexeme.isOther = true) : reading.Genuine text := by
  intro hother
  rw [h] at hother
  cases hother

theorem isOther_scanTemplate (length : Nat) (cs : List Char) :
    (scanTemplate length cs).lexeme.isOther = true := by
  fun_induction scanTemplate <;> simp_all [Lexeme.isOther, broken]

theorem isOther_ofMark (text : List Char) {marks : List String} (h : "(" ∉ marks) :
    ((ofMark text marks).getD (broken 1)).lexeme.isOther = true := by
  unfold ofMark
  cases hf : marks.find? _ with
  | none => rfl
  | some mark =>
    refine bne_iff_ne.2 fun heq => h ?_
    exact heq ▸ List.mem_of_find?_eq_some hf

theorem isOther_regex (text : List Char) : (regex text).lexeme.isOther = true := by
  unfold regex
  split <;> rfl

theorem isOther_ofForm (form : Form) (text : List Char) :
    (ofForm form text).lexeme.isOther = true := by
  cases form with
  | lessThan => rfl
  | operator => exact isOther_ofMark text (by decide)
  | regex => exact isOther_regex text
  | template => exact isOther_scanTemplate 1 (text.drop 1)

theorem isOther_elementChild (text : List Char) : (elementChild text).lexeme.isOther = true := by
  unfold elementChild
  split
  · rfl
  · rfl
  · rfl
  · simp only
    split
    · split <;> rfl
    · rfl

theorem isOther_attributeValue (quote : Char) (text : List Char) :
    (attributeValue quote text).lexeme.isOther = true := by
  unfold attributeValue
  simp only
  split <;> rfl

end Reading

namespace Token

/-- The `token` is what code holds at its place, if it names a module or asks for one. -/
def Genuine (token : Token) : Prop := token.toReading.Genuine token.start.rest

theorem inCode_genuine (input : Input) : (inCode input).Genuine := Reading.genuine_code _

theorem next_genuine (surrounding : Surrounding) (input : Input) :
    (next surrounding input).Genuine := by
  cases surrounding with
  | code => exact inCode_genuine input
  | element => exact Reading.genuine_of_isOther (Reading.isOther_elementChild _)
  | tagValue =>
    simp only [next]
    split
    · split
      · exact Reading.genuine_of_isOther (Reading.isOther_attributeValue _ _)
      · exact inCode_genuine input
    · exact inCode_genuine input

theorem reread_genuine (form : Form) (token : Token) : (token.reread form).Genuine :=
  Reading.genuine_of_isOther (Reading.isOther_ofForm form _)

/-- A token lies in the text that its place `input` lies in, and not in front of that place. -/
theorem next_start (surrounding : Surrounding) (input : Input) :
    ∃ n, (next surrounding input).start = input.skip n := by
  have inCode_start : ∃ n, (inCode input).start = input.skip n := ⟨_, rfl⟩
  have here : input = input.skip 0 := by simp [Input.skip]
  cases surrounding with
  | code => exact inCode_start
  | element => exact ⟨0, here⟩
  | tagValue =>
    simp only [next]
    split
    · split
      · exact ⟨0, here⟩
      · exact inCode_start
    · exact inCode_start

end Token

end FlowMigration.Script
