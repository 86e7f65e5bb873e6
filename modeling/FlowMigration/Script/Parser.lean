import FlowMigration.Script.Cursor

/-! # Parsers

A parser moves a cursor on, or fails. It cannot lose track of the source: from a sound cursor it
comes to a sound one.

* `Parser`: with `pure` and `bind`, the steps on cursors, and a context that is handed down.
* `Parser.naming`, `Parser.namingAtOnce`: what may ask for a module.
* `Parser.attempt`, `Parser.foresee`: trying out without going on.
* `Parser.many`, `Parser.delimited`: repetition.
-/

namespace FlowMigration.Script

/-- What surrounds the phrase that a `Parser` is to read. -/
structure Context where
  /-- `in` is an operator. -/
  allowIn : Bool := true
  /-- `await` is an operator. -/
  inAsync : Bool := true
  /-- `yield` is an operator. -/
  inGenerator : Bool := false
  /-- Inside the expression of a decorator. -/
  inDecorator : Bool := false
  /-- `extends` does not go on a type. -/
  plainType : Bool := false
deriving DecidableEq, Repr

structure Parser (α : Type) where
  run : Context → Cursor → Option (α × Cursor)
  leads : ∀ {context : Context} {cursor next : Cursor} {a : α},
    run context cursor = some (a, next) → cursor.Leads next

namespace Parser

variable {α β : Type}

instance : Monad Parser where
  pure a :=
    { run := fun _ cursor => some (a, cursor)
      leads := by
        intro _ cursor next b h
        simp only [Option.some.injEq, Prod.mk.injEq] at h
        exact h.2 ▸ Cursor.Leads.refl cursor }
  bind parser go :=
    { run := fun context cursor =>
        match parser.run context cursor with
        | some (a, next) => (go a).run context next
        | none => none
      leads := by
        intro context cursor next b h
        split at h
        · next a middle hm => exact (parser.leads hm).trans ((go a).leads h)
        · simp at h }

/-! ## Steps -/

/-- The source cannot be read, and no parser goes on. -/
def fail : Parser α where
  run := fun _ _ => none
  leads := by intro _ _ _ _ h; simp at h

/-- What `f` knows at the cursor. -/
def look (f : Context → Cursor → α) : Parser α where
  run := fun context cursor => some (f context cursor, cursor)
  leads := by
    intro _ cursor next b h
    simp only [Option.some.injEq, Prod.mk.injEq] at h
    exact h.2 ▸ Cursor.Leads.refl cursor

/-- A step `f` of the cursor, which `Leads` on. -/
def step (f : Cursor → Cursor) (h : ∀ cursor : Cursor, cursor.Leads (f cursor)) : Parser Unit where
  run := fun _ cursor => some ((), f cursor)
  leads := by
    intro _ cursor next b hs
    simp only [Option.some.injEq, Prod.mk.injEq] at hs
    exact hs.2 ▸ h cursor

/-- Goes on to the next token, by `Cursor.advance`. -/
def next : Parser Unit := step (Cursor.advance .code) (Cursor.advance_leads .code)

/-- Goes on to the next token, which stands in `surrounding`, between tags or inside one. -/
def nextIn (surrounding : Surrounding) : Parser Unit :=
  step (Cursor.advance surrounding) (Cursor.advance_leads surrounding)

/-- Goes past the token, which is the name of a tag or an attribute, by `Cursor.advanceTag`. -/
def nextBehindTag : Parser Unit := step Cursor.advanceTag Cursor.advanceTag_leads

/-- Takes the token in another `form`. -/
def reread (form : Form) : Parser Unit := step (Cursor.reread form) (Cursor.reread_leads form)

def markElement : Parser Unit := step Cursor.markElement Cursor.markElement_leads

/-- Goes past what may ask for a module, from its keyword on; `head` reads what is behind the
keyword. If it answers with something, its frame goes on with the word in front of the module's
name: both are read as well, and the name is recorded. -/
def naming (frame : α → Frame) (head : Parser (Option α)) : Parser (Option α) where
  run := fun context cursor =>
    match head.run context (cursor.advance .code) with
    | some (some a, front) => (front.record (frame a) cursor).map (some a, ·)
    | some (none, next) => some (none, next)
    | none => none
  leads := by
    intro context cursor next answer h
    split at h
    · next a front hm =>
      rw [Option.map_eq_some_iff] at h
      obtain ⟨last, hlast, heq⟩ := h
      simp only [Prod.mk.injEq] at heq
      exact heq.2 ▸ Cursor.record_leads (head.leads hm) hlast
    · next hm =>
      simp only [Option.some.injEq, Prod.mk.injEq] at h
      exact h.2 ▸ (Cursor.advance_leads .code cursor).trans (head.leads hm)
    · cases h

/-- Goes past the keyword of `frame`, which is its leader, and the name of a module. -/
def namingAtOnce (frame : Frame) : Parser Unit where
  run := fun _ cursor => (cursor.record frame cursor).map ((), ·)
  leads := by
    intro _ cursor next answer h
    rw [Option.map_eq_some_iff] at h
    obtain ⟨last, hlast, heq⟩ := h
    simp only [Prod.mk.injEq] at heq
    exact heq.2 ▸ Cursor.record_self_leads hlast

/-- The same `parser` in a changed context. -/
def within (change : Context → Context) (parser : Parser α) : Parser α where
  run := fun context cursor => parser.run (change context) cursor
  leads := parser.leads

/-- What `parser` reads; nothing, and no step, if it fails. -/
def attempt (parser : Parser α) : Parser (Option α) where
  run := fun context cursor =>
    match parser.run context cursor with
    | some (a, next) => some (some a, next)
    | none => some (none, cursor)
  leads := by
    intro context cursor next b h
    split at h
    · next a middle hm =>
      simp only [Option.some.injEq, Prod.mk.injEq] at h
      exact h.2 ▸ parser.leads hm
    · simp only [Option.some.injEq, Prod.mk.injEq] at h
      exact h.2 ▸ Cursor.Leads.refl cursor

/-- What `parser` would read, without a step. -/
def foresee (parser : Parser α) : Parser (Option α) :=
  look fun context cursor => (parser.run context cursor).map (·.1)

/-- Whether `test` holds on what follows; not if it fails. -/
def foreseen (test : Parser Bool) : Parser Bool := do
  return (← foresee test) == some true

/-! ## Tokens -/

def token : Parser Token := look fun _ cursor => cursor.token

def lexeme : Parser Lexeme := look fun _ cursor => cursor.token.lexeme

def context : Parser Context := look fun context _ => context

/-- Whether the token is the word or the punctuation `text`. -/
def sees (text : String) : Parser Bool := look fun _ cursor => cursor.token.lexeme.is text

def seesAny (texts : List String) : Parser Bool :=
  look fun _ cursor => texts.any cursor.token.lexeme.is

/-- Whether a line ends in front of the token. -/
def onNewLine : Parser Bool := look fun _ cursor => cursor.token.newline

/-- Whether something was wrong with a token so far. -/
def sawFault : Parser Bool := look fun _ cursor => cursor.faulty

/-- Goes past the token if it is `text`, and tells whether it was. -/
def eat (text : String) : Parser Bool := do
  if ← sees text then
    next
    return true
  else return false

/-- Goes past the token, which has to be `text`. -/
def expect (text : String) : Parser Unit := do
  unless ← eat text do fail

/-- Whether the source or what can be read of it ends here. -/
def atEnd : Parser Bool := do
  match ← lexeme with
  | .fin | .broken => return true
  | _ => return false

/-! ## Repetition -/

/-- Repeats `step` on a value, a limited number of times, until it answers with a result. -/
def iterateFor (step : α → Parser (α ⊕ β)) : Nat → α → Parser β
  | 0, _ => fail
  | n + 1, a => do
    match ← step a with
    | .inl a => iterateFor step n a
    | .inr b => return b

/-- Repeats `step` on a value until it answers with a result. Each round but the last one reads
something of the source, so the length of the source bounds their number. -/
def iterate (step : α → Parser (α ⊕ β)) (a : α) : Parser β := do
  iterateFor step ((← look fun _ cursor => cursor.size) + 1) a

/-- Repeats a parser as long as it answers `true`. -/
def many (step : Parser Bool) : Parser Unit :=
  iterate (fun () => do return if ← step then .inl () else .inr ()) ()

/-- Items with commas between them, up to `close`, which stays. `item` is told what the items
before it made of `a`. The answer says also whether a comma stands in front of `close`. -/
def fold (close : String) (a : α) (item : α → Parser α) : Parser (α × Bool) := do
  if ← sees close then return (a, false)
  iterate (fun a => do
    let a ← item a
    if ← sees close then return .inr (a, false)
    expect ","
    if ← sees close then return .inr (a, true)
    return .inl a) a

/-- Items with commas between them, up to `close`, which stays. -/
def delimited (close : String) (item : Parser Unit) : Parser Unit := do
  discard (fold close () fun _ => item)

end Parser

end FlowMigration.Script
