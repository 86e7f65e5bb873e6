import FlowMigration.Script.Token.Genuine

/-! # Cursors

How far a source has been read, and what has been found in it.

* `Frame`: the words behind which a source names a module.
* `Cursor.ofText`: a cursor at the start of a source.
* `Cursor.advance`, `Cursor.reread`, `Cursor.record`, `Cursor.markElement`: the ways on.
* `Asking.Before`: in which order a source asks for modules.
* `Cursor.Sound`: the requests that have been found stand in the source, each in its frame and one
  before the other.
-/

namespace FlowMigration.Script

/-- How a source asks for a module, by its `keyword` and what stands in front of the module's name,
its `leader`. -/
inductive Frame where
  /-- By an import of names. -/
  | importFrom
  /-- By an import without names. -/
  | importAlone
  /-- By such an import that is put off. -/
  | importDefer
  /-- By such an import of a source. -/
  | importSource
  /-- By an export of the names of another module. -/
  | exportFrom
  /-- By a call of `require`. -/
  | requireCall
  /-- By a call of `import`. -/
  | importCall
deriving DecidableEq, Repr

namespace Frame

/-- The word that asks for the module, where a `Framed` request starts. -/
def keyword : Frame → String
  | .exportFrom => "export"
  | .requireCall => "require"
  | _ => "import"

/-- What stands in front of the name of the module, right in front of the literal of a `Framed`
request. -/
def leader : Frame → Lexeme
  | .importFrom | .exportFrom => .word "from"
  | .importAlone => .word "import"
  | .importDefer => .word "defer"
  | .importSource => .word "source"
  | .requireCall | .importCall => .mark "("

theorem isOther_leader (frame : Frame) : frame.leader.isOther = false := by
  cases frame <;> decide

theorem keyword_ne (frame : Frame) : frame.keyword ≠ "" := by cases frame <;> decide

end Frame

/-- A module that a source asks for, and where its name stands: the `offset` of the literal. -/
structure Request where
  offset : Nat
  specifier : String
deriving DecidableEq, Repr

/-- What code holds at the place `offset` of `source`, as `Reading.code` takes it. -/
def Reads (source : List Char) (offset : Nat) (lexeme : Lexeme) : Prop :=
  (Reading.code (source.drop offset)).lexeme = lexeme

namespace Request

/-- A literal with the specifier of `request` stands where the request says. -/
def StandsIn (source : List Char) (request : Request) : Prop :=
  ∃ literal, Literal.ofText (source.drop request.offset) = some literal ∧
    literal.value = request.specifier

/-- The request is made in a frame: its keyword stands at `start`, its leader at `front`, and the
literal follows the leader with nothing but blanks and comments in between. -/
structure Framed (source : List Char) (request : Request) (frame : Frame) (start front : Nat) :
    Prop where
  keyword : Reads source start (.word frame.keyword)
  leader : Reads source front frame.leader
  le : start ≤ front
  behind : ∃ length, (Reading.code (source.drop front)).length = length ∧
    request.offset = front + length + (Trivia.ofText (source.drop (front + length))).length

theorem Framed.start_le {source : List Char} {request : Request} {frame : Frame} {start front : Nat}
    (h : request.Framed source frame start front) : start ≤ request.offset := by
  obtain ⟨length, -, hoffset⟩ := h.behind
  have := h.le
  omega

end Request

/-- A `request` with its `frame`, the offset of its keyword and that of its leader. -/
structure Asking where
  request : Request
  frame : Frame
  start : Nat
  front : Nat

namespace Asking

/-- Where `asking` says so, its keyword, its leader and the name of its module stand. -/
structure StandsIn (source : List Char) (asking : Asking) : Prop where
  literal : asking.request.StandsIn source
  framed : asking.request.Framed source asking.frame asking.start asking.front

/-- The keywords stand in this order. The `second` asking is behind the `first`, or else in it:
between its keyword and its leader. -/
def Before (first second : Asking) : Prop :=
  first.start < second.start ∧
    (first.request.offset < second.start ∨ second.request.offset < first.front)

end Asking

structure Cursor where
  /-- The token to be read next. -/
  token : Token
  /-- Something was wrong with a token so far. -/
  faulty : Bool
  /-- The requests so far, the last one first. -/
  requests : List Request := []
  /-- An element has been read. -/
  hasElement : Bool := false
  /-- How long the source is. -/
  size : Nat
deriving DecidableEq, Repr

namespace Cursor

/-- How long the line at the start of a source is that names an interpreter. -/
def interpreterLength : List Char → Nat
  | '#' :: '!' :: rest => (rest.takeWhile fun c => !isLineBreak c).length + 2
  | _ => 0

/-- The place at which the code of `source` begins, behind an `interpreterLength`. -/
def front (source : List Char) : Input :=
  (⟨0, source⟩ : Input).skip (interpreterLength source)

/-- A cursor at the start of `source`, in front of its first token. -/
def ofText (source : List Char) : Cursor :=
  let token := Token.next .code (front source)
  { token, faulty := token.faulty, size := source.length }

/-- The `cursor` with another `token`. -/
def put (cursor : Cursor) (token : Token) : Cursor :=
  { cursor with token, faulty := cursor.faulty || token.faulty }

/-- The cursor behind the token of `cursor`. -/
def advance (surrounding : Surrounding) (cursor : Cursor) : Cursor :=
  cursor.put (Token.next surrounding cursor.token.behind)

/-- The cursor behind the token of `cursor`, which is the name of a tag or an attribute. -/
def advanceTag (cursor : Cursor) : Cursor := (cursor.put cursor.token.tagName).advance .code

/-- The `cursor` whose token is taken in another `form`. -/
def reread (form : Form) (cursor : Cursor) : Cursor := cursor.put (cursor.token.reread form)

/-- The cursor behind the name of a module, which is its token. The request goes in front of those
that were found since `keyword`. -/
def recordName (cursor keyword : Cursor) : Option Cursor :=
  match cursor.token.lexeme with
  | .text value =>
    let since := cursor.requests.take (cursor.requests.length - keyword.requests.length)
    some { cursor.advance .code with
      requests := since ++ ⟨cursor.token.start.offset, value⟩ :: keyword.requests }
  | _ => none

/-- The cursor behind the leader of a frame, which is its token, and the name of a module. The
keyword of the frame is the token of `keyword`. -/
def record (frame : Frame) (cursor keyword : Cursor) : Option Cursor :=
  if keyword.token.lexeme = .word frame.keyword ∧ cursor.token.lexeme = frame.leader then
    (cursor.advance .code).recordName keyword
  else none

def markElement (cursor : Cursor) : Cursor := { cursor with hasElement := true }

/-! ## Soundness -/

/-- What has been found are these `askings`, the last one first. They stand in `source` one before
the other, and in front of the token. -/
structure Sound (source : List Char) (askings : List Asking) (cursor : Cursor) : Prop where
  inText : cursor.token.start.InText source
  genuine : cursor.token.Genuine
  requests : cursor.requests = askings.map (·.request)
  stand : ∀ asking ∈ askings, asking.StandsIn source
  ordered : askings.Pairwise fun later earlier => earlier.Before later
  behind : ∀ asking ∈ askings, asking.request.offset < cursor.token.start.offset

/-- Where the cursor `a` is `Sound`, so is `b`, which is no earlier; nor is what has been found in
between. -/
def Leads (a b : Cursor) : Prop :=
  ∀ source askings, a.Sound source askings → ∃ since, b.Sound source (since ++ askings) ∧
    a.token.start.offset ≤ b.token.start.offset ∧
      ∀ asking ∈ since, a.token.start.offset ≤ asking.start

variable {source : List Char} {askings : List Asking} {a b c : Cursor}

theorem Leads.refl (a : Cursor) : a.Leads a := fun _ _ h =>
  ⟨[], h, Nat.le_refl _, fun _ hn => absurd hn List.not_mem_nil⟩

theorem Leads.trans (hab : a.Leads b) (hbc : b.Leads c) : a.Leads c := by
  intro source askings h
  obtain ⟨first, hb, hfirst, hfound⟩ := hab source askings h
  obtain ⟨second, hc, hsecond, hmore⟩ := hbc source _ hb
  refine ⟨second ++ first, by rwa [List.append_assoc], Nat.le_trans hfirst hsecond, ?_⟩
  rintro asking hasking
  rcases List.mem_append.1 hasking with hlate | hearly
  · exact Nat.le_trans hfirst (hmore asking hlate)
  · exact hfound asking hearly

theorem ofText_sound (source : List Char) : (ofText source).Sound source [] where
  inText := by
    obtain ⟨n, hn⟩ := Token.next_start .code (front source)
    have hwhole : (⟨0, source⟩ : Input).InText source := rfl
    have hfront : (front source).InText source := hwhole.skip _
    simp only [ofText, hn]
    exact hfront.skip n
  genuine := Token.next_genuine _ _
  requests := rfl
  stand := fun _ h => absurd h List.not_mem_nil
  ordered := List.Pairwise.nil
  behind := fun _ h => absurd h List.not_mem_nil

theorem Sound.reading (h : a.Sound source askings) (hother : a.token.lexeme.isOther = false) :
    a.token.toReading = Reading.code (source.drop a.token.start.offset) := by
  have place : a.token.start.rest = source.drop a.token.start.offset := h.inText
  rw [← place]
  exact h.genuine hother

theorem Sound.reads (h : a.Sound source askings) {lexeme : Lexeme}
    (hlexeme : a.token.lexeme = lexeme) (hother : lexeme.isOther = false) :
    Reads source a.token.start.offset lexeme := by
  rw [Reads, ← h.reading (hlexeme ▸ hother), hlexeme]

/-- A cursor `b` further on in `source`, at which no more has been found, is `Sound` as well. -/
theorem Sound.go (h : a.Sound source askings) (hrequests : b.requests = a.requests)
    (htext : b.token.start.InText source) (hgenuine : b.token.Genuine)
    (hle : a.token.start.offset ≤ b.token.start.offset) : b.Sound source askings where
  inText := htext
  genuine := hgenuine
  requests := hrequests.trans h.requests
  stand := h.stand
  ordered := h.ordered
  behind := fun asking ha => Nat.lt_of_lt_of_le (h.behind asking ha) hle

theorem advance_offset (surrounding : Surrounding) (cursor : Cursor) :
    cursor.token.start.offset + cursor.token.length ≤
      (cursor.advance surrounding).token.start.offset := by
  obtain ⟨n, hn⟩ := Token.next_start surrounding cursor.token.behind
  simp only [advance, put]
  rw [hn]
  exact Nat.le_add_right _ n

theorem advance_inText (surrounding : Surrounding) (h : a.token.start.InText source) :
    (a.advance surrounding).token.start.InText source := by
  obtain ⟨n, hn⟩ := Token.next_start surrounding a.token.behind
  simp only [advance, put, hn]
  exact (h.skip a.token.length).skip n

theorem Sound.advance (h : a.Sound source askings) (surrounding : Surrounding) :
    (a.advance surrounding).Sound source askings :=
  h.go rfl (advance_inText surrounding h.inText) (Token.next_genuine _ _)
    (Nat.le_trans (Nat.le_add_right _ _) (advance_offset surrounding a))

theorem leads_of_sound
    (h : ∀ source askings, a.Sound source askings →
      b.Sound source askings ∧ a.token.start.offset ≤ b.token.start.offset) : a.Leads b :=
  fun source askings ha => ⟨[], (h source askings ha).1, (h source askings ha).2,
    fun _ hn => absurd hn List.not_mem_nil⟩

theorem advance_leads (surrounding : Surrounding) (cursor : Cursor) :
    cursor.Leads (cursor.advance surrounding) :=
  leads_of_sound fun _ _ h => ⟨h.advance surrounding,
    Nat.le_trans (Nat.le_add_right _ _) (advance_offset surrounding cursor)⟩

theorem advanceTag_leads (cursor : Cursor) : cursor.Leads cursor.advanceTag := by
  refine leads_of_sound fun _ _ h => ?_
  have hle : cursor.token.start.offset ≤ cursor.advanceTag.token.start.offset :=
    Nat.le_trans (Nat.le_add_right _ _) (advance_offset .code (cursor.put cursor.token.tagName))
  exact ⟨h.go rfl (advance_inText (a := cursor.put cursor.token.tagName) .code h.inText)
    (Token.next_genuine _ _) hle, hle⟩

theorem reread_leads (form : Form) (cursor : Cursor) : cursor.Leads (cursor.reread form) :=
  leads_of_sound fun _ _ h =>
    ⟨h.go rfl h.inText (Token.reread_genuine form _) (Nat.le_refl _), Nat.le_refl _⟩

theorem markElement_leads (cursor : Cursor) : cursor.Leads cursor.markElement :=
  leads_of_sound fun _ _ h => ⟨{ h with }, Nat.le_refl _⟩

/-! ## Recording -/

/-- Where the token behind that of a `Sound` cursor starts: behind the `Trivia`. -/
theorem offset_advance (h : a.token.start.InText source) :
    (a.advance .code).token.start.offset = a.token.start.offset + a.token.length +
      (Trivia.ofText (source.drop (a.token.start.offset + a.token.length))).length := by
  have place : a.token.start.rest = source.drop a.token.start.offset := h
  simp only [advance, put, Token.next, Token.inCode, Token.behind, Input.skip, place,
    List.drop_drop]

/-- What was found `since` is before what is found now, in the list and in the text. -/
theorem ordered_insert {since : List Asking} {asking : Asking}
    (hordered : (since ++ askings).Pairwise fun later earlier => earlier.Before later)
    (hsince : ∀ later ∈ since, asking.Before later)
    (hearlier : ∀ earlier ∈ askings, earlier.Before asking) :
    (since ++ asking :: askings).Pairwise fun later earlier => earlier.Before later := by
  obtain ⟨hin, hout, hcross⟩ := List.pairwise_append.1 hordered
  refine List.pairwise_append.2 ⟨hin, List.pairwise_cons.2 ⟨hearlier, hout⟩, fun later hl => ?_⟩
  exact List.forall_mem_cons.2 ⟨hsince later hl, hcross later hl⟩

/-- The name of a module is recorded soundly if it is `Framed`, by a `keyword` in front of what was
found `since` and a leader behind it. -/
theorem recordName_sound {keyword : Cursor} {since : List Asking} {frame : Frame} {front : Nat}
    (hk : keyword.Sound source askings) (hs : a.Sound source (since ++ askings))
    (hframed : ∀ value, Request.Framed source ⟨a.token.start.offset, value⟩ frame
      keyword.token.start.offset front)
    (hsince : ∀ later ∈ since, keyword.token.start.offset < later.start ∧
      later.request.offset < front)
    (h : a.recordName keyword = some b) :
    ∃ asking, b.Sound source (since ++ asking :: askings) ∧
      asking.start = keyword.token.start.offset ∧
        a.token.start.offset ≤ b.token.start.offset := by
  unfold recordName at h
  split at h
  · next value hv =>
    simp only [Option.some.injEq] at h
    subst h
    have hreading := hs.reading (by rw [hv]; rfl)
    obtain ⟨literal, hl, hvalue, hlength⟩ :=
      Reading.quotes_code (hreading ▸ hv)
    have hnext := hs.advance .code
    have positive : 0 < a.token.length := by
      rw [show a.token.length = _ from congrArg Reading.length hreading, ← hlength]
      exact Literal.ofText_length hl
    have hend := advance_offset .code a
    let asking : Asking :=
      ⟨⟨a.token.start.offset, value⟩, frame, keyword.token.start.offset, front⟩
    refine ⟨asking, ?_, rfl, Nat.le_trans (Nat.le_add_right _ _) hend⟩
    exact
      { inText := hnext.inText
        genuine := hnext.genuine
        requests := by
          simp only [hs.requests, hk.requests, List.map_append, List.length_append,
            Nat.add_sub_cancel, List.take_left, List.map_cons, asking]
        stand := by
          obtain ⟨hlate, hearly⟩ := List.forall_mem_append.1 hs.stand
          exact List.forall_mem_append.2 ⟨hlate, List.forall_mem_cons.2
            ⟨⟨⟨literal, hl, hvalue⟩, hframed value⟩, hearly⟩⟩
        ordered := by
          refine ordered_insert hs.ordered (fun later hlater => ?_) (fun earlier hearlier => ?_)
          · exact ⟨(hsince later hlater).1, .inr (hsince later hlater).2⟩
          · have hin := hk.behind earlier hearlier
            exact ⟨Nat.lt_of_le_of_lt (hk.stand earlier hearlier).framed.start_le hin, .inl hin⟩
        behind := by
          obtain ⟨hlate, hearly⟩ := List.forall_mem_append.1 hnext.behind
          refine List.forall_mem_append.2 ⟨hlate, List.forall_mem_cons.2 ⟨?_, hearly⟩⟩
          exact Nat.lt_of_lt_of_le (Nat.lt_add_of_pos_right positive) hend }
  · simp at h

/-- **What is recorded is `Framed`**: by the `keyword` in front of what was found `since`, and the
leader at the cursor. -/
theorem record_sound {keyword : Cursor} {since : List Asking} {frame : Frame}
    (hk : keyword.Sound source askings) (hs : a.Sound source (since ++ askings))
    (hle : keyword.token.start.offset ≤ a.token.start.offset)
    (hsince : ∀ later ∈ since, keyword.token.start.offset < later.start)
    (h : a.record frame keyword = some b) :
    ∃ asking, b.Sound source (since ++ asking :: askings) ∧
      asking.start = keyword.token.start.offset ∧
        a.token.start.offset ≤ b.token.start.offset := by
  unfold record at h
  split at h
  · next hwords =>
    obtain ⟨hkeyword, hleader⟩ := hwords
    have hother := frame.isOther_leader
    have hlength : a.token.length = _ :=
      congrArg Reading.length (hs.reading (hleader ▸ hother))
    have hframed (value : String) : Request.Framed source
        ⟨(a.advance .code).token.start.offset, value⟩ frame keyword.token.start.offset
          a.token.start.offset :=
      { keyword := hk.reads hkeyword rfl
        leader := hs.reads hleader hother
        le := hle
        behind := ⟨_, hlength.symm, offset_advance hs.inText⟩ }
    have hhead (later : Asking) (hlater : later ∈ since) :
        later.request.offset < a.token.start.offset :=
      hs.behind later (List.mem_append_left _ hlater)
    obtain ⟨asking, hsound, hstart, hend⟩ := recordName_sound hk (hs.advance .code) hframed
      (fun later hlater => ⟨hsince later hlater, hhead later hlater⟩) h
    have := advance_offset .code a
    exact ⟨asking, hsound, hstart, by omega⟩
  · cases h

/-- The keyword of a request is not empty, so `record` goes past it. -/
theorem lt_advance_of_record {keyword : Cursor} {frame : Frame}
    (hk : keyword.Sound source askings) (h : a.record frame keyword = some b) :
    keyword.token.start.offset < (keyword.advance .code).token.start.offset := by
  unfold record at h
  split at h
  · next hwords =>
    have hreading := hk.reading (by rw [hwords.1]; rfl)
    have hword := hreading ▸ hwords.1
    have hlength : keyword.token.length = _ := congrArg Reading.length hreading
    have hpos := Reading.length_pos_of_word hword frame.keyword_ne
    exact Nat.lt_of_lt_of_le (Nat.lt_add_of_pos_right (hlength ▸ hpos)) (advance_offset .code _)
  · cases h

/-- A request `Leads` on from its `keyword`, if its head does from behind the keyword. -/
theorem record_leads {keyword : Cursor} {frame : Frame} (hhead : (keyword.advance .code).Leads a)
    (h : a.record frame keyword = some b) : keyword.Leads b := by
  intro source askings hk
  obtain ⟨since, hs, hle, hfound⟩ := hhead source askings (hk.advance .code)
  have hkeyword := lt_advance_of_record hk h
  obtain ⟨asking, hsound, hstart, hend⟩ := record_sound hk hs (by omega)
    (fun later hlater => Nat.lt_of_lt_of_le hkeyword (hfound later hlater)) h
  refine ⟨since ++ [asking], by simpa using hsound, by omega, ?_⟩
  refine List.forall_mem_append.2 ⟨fun later hlater => ?_, ?_⟩
  · have := hfound later hlater
    omega
  · exact List.forall_mem_singleton.2 (Nat.le_of_eq hstart.symm)

theorem record_self_leads {frame : Frame} (h : a.record frame a = some b) : a.Leads b := by
  intro source askings hs
  have hnone : a.Sound source ([] ++ askings) := hs
  obtain ⟨asking, hsound, hstart, hend⟩ := record_sound hs hnone (Nat.le_refl _)
    (fun _ hn => absurd hn List.not_mem_nil) h
  exact ⟨[asking], hsound, hend, List.forall_mem_singleton.2 (Nat.le_of_eq hstart.symm)⟩

end Cursor

end FlowMigration.Script
