import FlowMigration.Proofs.Glob.Ending
import FlowMigration.Proofs.Path.Pieces

/-!
# Plain patterns

Patterns of names that stand for themselves, and what they match among paths written by their names.

* `bytes_ofSegments_cons`: the bytes of a path, name by name; `mem_afterSlashes`: its endings after
  slashes are those of its last names.
* `matches_inside`, `matches_beneath`: what is inside a directory, and what is inside one of some
  name; `matches_ending`: files by the ending of their last name.
* `parseFrom_literal`: reading a text without active characters.
-/

namespace FlowMigration.Glob

/-! ## Bytes of paths -/

theorem bytes_injective {text text' : String} (h : bytes text = bytes text') : text = text' := by
  have hdata : ∀ s : String, bytes s = s.toByteArray.data.toList := by
    intro s
    rw [bytes, ByteArray.toList, toList_loop]
    rfl
  rw [hdata, hdata] at h
  exact String.toByteArray_inj.1 (ByteArray.ext (Array.toList_inj.1 h))

theorem slash_not_mem_bytes {text : String} (h : '/' ∉ text.toList) : slash ∉ bytes text := by
  rw [bytes_eq]
  intro hmem
  obtain ⟨c, hc, hb⟩ := List.mem_flatMap.1 hmem
  have hne : c.val.toNat ≠ 47 := by
    intro hv
    refine h ((Char.ext (UInt32.toNat_inj.1 ?_) : c = '/') ▸ hc)
    rw [hv]
    rfl
  have hcode : ∀ n : Nat, n % 256 = 47 ↔ slash = UInt8.ofNat n := by
    intro n
    rw [← UInt8.toNat_inj, UInt8.toNat_ofNat']
    exact eq_comm
  -- no byte of a longer code is as small as a slash
  unfold String.utf8EncodeChar at hb
  dsimp only at hb
  split at hb
  · rw [List.mem_singleton, ← hcode] at hb
    omega
  · split at hb
    · simp only [List.mem_cons, List.not_mem_nil, or_false, ← hcode] at hb
      omega
    · split at hb <;>
      · simp only [List.mem_cons, List.not_mem_nil, or_false, ← hcode] at hb
        omega

theorem bytes_ofSegments_nil : bytes (Path.ofSegments []) = [] := by
  simp [bytes_eq, Path.ofSegments, Path.unpieces]

theorem bytes_ofSegments_singleton (name : String) : bytes (Path.ofSegments [name]) = bytes name := by
  rw [Path.ofSegments, List.map_singleton, Path.unpieces, String.ofList_toList]

/-- **The bytes of a path**, first those of `name`, then those of `names`. -/
theorem bytes_ofSegments_cons (name : String) {names : List String} (h : names ≠ []) :
    bytes (Path.ofSegments (name :: names)) =
      bytes name ++ slash :: bytes (Path.ofSegments names) := by
  have hslash : String.utf8EncodeChar '/' = [slash] := by decide
  rw [bytes_eq, Path.ofSegments_cons h, List.flatMap_append, List.flatMap_cons, hslash, ← bytes_eq,
    ← bytes_eq]
  rfl

/-- A path can be written with `names`: none of them holds a slash. -/
def Slashless (names : List String) : Prop := ∀ n ∈ names, '/' ∉ n.toList

theorem Slashless.tail {name : String} {names : List String} (h : Slashless (name :: names)) :
    Slashless names := fun n hn => h n (List.mem_cons_of_mem _ hn)

theorem Slashless.head {name : String} {names : List String} (h : Slashless (name :: names)) :
    slash ∉ bytes name := slash_not_mem_bytes (h name List.mem_cons_self)

theorem Slashless.of_suffix {names rest : List String} (h : Slashless names) (hs : rest <:+ names) :
    Slashless rest := fun n hn => h n (hs.mem hn)

theorem afterSlashes_of_not_mem {bs : List UInt8} (h : slash ∉ bs) : afterSlashes bs = [] := by
  induction bs with
  | nil => rfl
  | cons b bs ih =>
    rw [List.mem_cons, not_or] at h
    rw [afterSlashes, if_neg (Ne.symm h.1), ih h.2]

theorem afterSlashes_append {front : List UInt8} (h : slash ∉ front) (rest : List UInt8) :
    afterSlashes (front ++ slash :: rest) = rest :: afterSlashes rest := by
  induction front with
  | nil => rw [List.nil_append, afterSlashes, if_pos rfl]
  | cons b front ih =>
    rw [List.mem_cons, not_or] at h
    rw [List.cons_append, afterSlashes, if_neg (Ne.symm h.1), ih h.2]

/-- **The endings of a path** after its slashes (`afterSlashes`): the paths of its last names. -/
theorem mem_afterSlashes {names : List String} (h : Slashless names) {rest : List UInt8} :
    rest ∈ afterSlashes (bytes (Path.ofSegments names)) ↔
      ∃ last, last ≠ [] ∧ last ≠ names ∧ last <:+ names ∧ rest = bytes (Path.ofSegments last) := by
  induction names with
  | nil =>
    rw [bytes_ofSegments_nil, afterSlashes]
    simp only [List.not_mem_nil, List.suffix_nil, false_iff, not_exists, not_and]
    exact fun last hne _ hnil => absurd hnil hne
  | cons name names ih =>
    cases names with
    | nil =>
      rw [bytes_ofSegments_singleton, afterSlashes_of_not_mem h.head]
      simp only [List.not_mem_nil, false_iff, not_exists, not_and]
      intro last hne hother hs
      rcases List.suffix_cons_iff.1 hs with rfl | hs
      · exact absurd rfl hother
      · exact absurd (List.suffix_nil.1 hs) hne
    | cons next names =>
      rw [bytes_ofSegments_cons name (List.cons_ne_nil _ _), afterSlashes_append h.head,
        List.mem_cons, ih h.tail]
      constructor
      · rintro (rfl | ⟨last, hne, hother, hs, rfl⟩)
        · exact ⟨next :: names, List.cons_ne_nil _ _, fun he => by simpa using congrArg List.length he,
            List.suffix_cons _ _, rfl⟩
        · refine ⟨last, hne, ?_, hs.trans (List.suffix_cons _ _), rfl⟩
          rintro rfl
          have hlen := hs.length_le
          simp only [List.length_cons] at hlen
          omega
      · rintro ⟨last, hne, hother, hs, rfl⟩
        rcases List.suffix_cons_iff.1 hs with rfl | hs
        · exact absurd rfl hother
        · by_cases he : last = next :: names
          · exact .inl (he ▸ rfl)
          · exact .inr ⟨last, hne, he, hs, rfl⟩

/-- Where a slash comes first in two texts: `front` and `front'` are all that is before it. -/
theorem append_slash_inj {front front' rest rest' : List UInt8} (h : slash ∉ front)
    (h' : slash ∉ front') (he : front ++ slash :: rest = front' ++ slash :: rest') :
    front = front' ∧ rest = rest' := by
  induction front generalizing front' with
  | nil =>
    cases front' with
    | nil => exact ⟨rfl, (List.cons.inj he).2⟩
    | cons b front' => exact absurd ((List.cons.inj he).1 ▸ List.mem_cons_self) h'
  | cons b front ih =>
    rw [List.mem_cons, not_or] at h
    cases front' with
    | nil => exact absurd (List.cons.inj he).1.symm h.1
    | cons b' front' =>
      rw [List.mem_cons, not_or] at h'
      have hcons := List.cons.inj he
      obtain ⟨rfl, rfl⟩ := ih h.2 h'.2 hcons.2
      exact ⟨by rw [hcons.1], rfl⟩

/-- **A path begins with a directory** if its `names` before the last one begin with `dirs`. -/
theorem exists_bytes_inside {dirs names : List String} (hdirs : dirs ≠ []) (hd : Slashless dirs)
    (hn : Slashless names) {rest : List UInt8} :
    bytes (Path.ofSegments names) = bytes (Path.ofSegments dirs) ++ slash :: rest ↔
      ∃ last, last ≠ [] ∧ names = dirs ++ last ∧ rest = bytes (Path.ofSegments last) := by
  induction dirs generalizing names with
  | nil => exact absurd rfl hdirs
  | cons dir dirs ih =>
    cases names with
    | nil =>
      rw [bytes_ofSegments_nil]
      constructor
      · intro he
        simpa using congrArg List.length he
      · rintro ⟨last, -, he, -⟩
        cases he
    | cons name names =>
      -- a name alone holds no slash
      have hone : names = [] → ∀ front more, bytes (Path.ofSegments (name :: names)) ≠
          front ++ slash :: more := by
        rintro rfl front more he
        rw [bytes_ofSegments_singleton] at he
        exact hn.head (he ▸ by simp)
      by_cases hnames : names = []
      · constructor
        · exact fun he => absurd he (hone hnames _ _)
        · rintro ⟨last, hne, he, -⟩
          rw [hnames, List.cons_append] at he
          exact absurd (List.append_eq_nil_iff.1 (List.cons.inj he).2.symm).2 hne
      rw [bytes_ofSegments_cons name hnames]
      by_cases hmore : dirs = []
      · subst hmore
        rw [bytes_ofSegments_singleton]
        constructor
        · intro he
          obtain ⟨hname, rfl⟩ := append_slash_inj hn.head hd.head he
          exact ⟨names, hnames, by rw [bytes_injective hname]; rfl, rfl⟩
        · rintro ⟨last, -, he, rfl⟩
          obtain ⟨rfl, rfl⟩ := List.cons.inj he
          rfl
      · rw [bytes_ofSegments_cons dir hmore, List.append_assoc, List.cons_append]
        constructor
        · intro he
          obtain ⟨hname, he⟩ := append_slash_inj hn.head hd.head he
          obtain ⟨last, hne, rfl, hrest⟩ := (ih hmore hd.tail hn.tail).1 he
          exact ⟨last, hne, by rw [bytes_injective hname]; rfl, hrest⟩
        · rintro ⟨last, hne, he, hrest⟩
          obtain ⟨rfl, rfl⟩ := List.cons.inj he
          rw [(ih hmore hd.tail hn.tail).2 ⟨last, hne, rfl, hrest⟩]

/-! ## Matching -/

theorem dropFront_eq_some {front path rest : List UInt8} :
    dropFront front path = some rest ↔ path = front ++ rest := by
  refine ⟨suffix_of_dropFront, ?_⟩
  rintro rfl
  induction front with
  | nil => rfl
  | cons b front ih => rw [List.cons_append, dropFront, if_pos rfl, ih]

/-- **A `text` that stands for itself** takes its bytes off the front of a path. -/
theorem matchTokens_literals (text : String) (ts : List GlobToken) (path : List UInt8) :
    matchTokens (text.toList.map .literal ++ ts) path = true ↔
      ∃ rest, path = bytes text ++ rest ∧ matchTokens ts rest = true := by
  rw [bytes_eq]
  induction text.toList generalizing path with
  | nil => simp
  | cons c cs ih =>
    have hchar : bytes c.toString = String.utf8EncodeChar c := by simp [bytes_eq]
    rw [List.map_cons, List.cons_append, matchTokens, hchar]
    cases hd : dropFront (String.utf8EncodeChar c) path with
    | none =>
      simp only [Bool.false_eq_true, false_iff, not_exists, not_and]
      rintro rest rfl
      rw [List.flatMap_cons, List.append_assoc, dropFront_eq_some.2 rfl] at hd
      cases hd
    | some rest =>
      obtain rfl := dropFront_eq_some.1 hd
      simp only [ih, List.flatMap_cons, List.append_assoc, List.append_cancel_left_eq]

theorem mem_afterName {path rest : List UInt8} :
    rest ∈ afterName path ↔ ∃ name, path = name ++ rest ∧ slash ∉ name := by
  induction path with
  | nil =>
    rw [afterName, List.mem_singleton]
    constructor
    · rintro rfl
      exact ⟨[], rfl, List.not_mem_nil⟩
    · rintro ⟨name, he, -⟩
      exact (List.append_eq_nil_iff.1 he.symm).2
  | cons b path ih =>
    rw [afterName]
    split
    · next hb =>
      rw [List.mem_singleton]
      constructor
      · rintro rfl
        exact ⟨[], rfl, List.not_mem_nil⟩
      · rintro ⟨name, he, hno⟩
        cases name with
        | nil => exact he.symm
        | cons c name => exact absurd ((List.cons.inj he).1 ▸ hb ▸ List.mem_cons_self) hno
    · next hb =>
      rw [List.mem_cons, ih]
      constructor
      · rintro (rfl | ⟨name, rfl, hno⟩)
        · exact ⟨[], rfl, List.not_mem_nil⟩
        · exact ⟨b :: name, rfl, by simp [hno, Ne.symm hb]⟩
      · rintro ⟨name, he, hno⟩
        cases name with
        | nil => exact .inl he.symm
        | cons c name =>
          exact .inr ⟨name, (List.cons.inj he).2, fun hc => hno (List.mem_cons_of_mem _ hc)⟩

/-- A last name with some `ending`. -/
def nameTokens (ending : String) : List GlobToken := .anyName :: ending.toList.map .literal

theorem matchTokens_name {ending : String} (hending : '/' ∉ ending.toList) {path : List UInt8} :
    matchTokens (nameTokens ending) path = true ↔ slash ∉ path ∧ bytes ending <:+ path := by
  have hliteral : ∀ rest, matchTokens (ending.toList.map .literal) rest = true ↔
      rest = bytes ending := by
    intro rest
    rw [← List.append_nil (ending.toList.map _), matchTokens_literals]
    simp [matchTokens]
  rw [nameTokens, matchTokens, List.any_eq_true]
  simp only [mem_afterName, hliteral]
  constructor
  · rintro ⟨rest, ⟨name, rfl, hno⟩, rfl⟩
    exact ⟨by simp [hno, slash_not_mem_bytes hending], List.suffix_append _ _⟩
  · rintro ⟨hno, name, rfl⟩
    exact ⟨bytes ending, ⟨name, rfl, fun hc => hno (List.mem_append_left _ hc)⟩, rfl⟩

/-- **Files by the `ending`** of their last name, in any directory. -/
theorem matchTokens_anywhere {ending : String} (hending : '/' ∉ ending.toList) {names : List String}
    (hn : Slashless names) (hne : names ≠ []) :
    matchTokens (.leadingDirs :: nameTokens ending) (bytes (Path.ofSegments names)) = true ↔
      bytes ending <:+ bytes (names.getLast hne) := by
  have hlast : ∀ last, last ≠ [] → last <:+ names →
      (matchTokens (nameTokens ending) (bytes (Path.ofSegments last)) = true ↔
        last = [names.getLast hne] ∧ bytes ending <:+ bytes (names.getLast hne)) := by
    intro last hlne hs
    rw [matchTokens_name hending]
    have hsame : last.getLast hlne = names.getLast hne := by
      obtain ⟨front, rfl⟩ := hs
      exact (List.getLast_append_of_ne_nil _ hlne).symm
    match last, hlne with
    | [name], _ =>
      rw [← hsame, bytes_ofSegments_singleton]
      exact ⟨fun h => ⟨rfl, h.2⟩, fun h => ⟨slash_not_mem_bytes (hn name (hs.mem (by simp))), h.2⟩⟩
    | name :: next :: more, _ =>
      rw [bytes_ofSegments_cons name (List.cons_ne_nil next more)]
      constructor
      · rintro ⟨hno, -⟩
        exact absurd (List.mem_append_right _ List.mem_cons_self) hno
      · rintro ⟨he, -⟩
        exact absurd (List.cons.inj he).2 (List.cons_ne_nil _ _)
  rw [matchTokens, Bool.or_eq_true, List.any_eq_true, hlast names hne List.suffix_rfl]
  constructor
  · rintro (⟨-, hends⟩ | ⟨rest, hrest, hm⟩)
    · exact hends
    · obtain ⟨last, hlne, -, hs, rfl⟩ := (mem_afterSlashes hn).1 hrest
      exact ((hlast last hlne hs).1 hm).2
  · intro hends
    by_cases hone : names = [names.getLast hne]
    · exact .inl ⟨hone, hends⟩
    · have hs : [names.getLast hne] <:+ names :=
        ⟨names.dropLast, List.dropLast_concat_getLast hne⟩
      exact .inr ⟨_, (mem_afterSlashes hn).2 ⟨_, List.cons_ne_nil _ _, Ne.symm hone, hs, rfl⟩,
        (hlast _ (List.cons_ne_nil _ _) hs).2 ⟨rfl, hends⟩⟩

theorem matchTokens_innerDirs (ts : List GlobToken) (path : List UInt8) :
    matchTokens (.innerDirs :: ts) path = true ↔
      ∃ rest, path = slash :: rest ∧ matchTokens (.leadingDirs :: ts) rest = true := by
  cases path with
  | nil => simp [matchTokens]
  | cons b rest =>
    have hstep : matchTokens (.innerDirs :: ts) (b :: rest) =
        (b == slash && matchTokens (.leadingDirs :: ts) rest) := by simp only [matchTokens]
    rw [hstep, Bool.and_eq_true, beq_iff_eq]
    constructor
    · rintro ⟨rfl, hm⟩
      exact ⟨rest, rfl, hm⟩
    · rintro ⟨rest', he, hm⟩
      obtain ⟨rfl, rfl⟩ := List.cons.inj he
      exact ⟨rfl, hm⟩

/-- **Files inside the directory `dirs`** by the `ending` of their last name. -/
theorem matchTokens_inside {ending : String} (hending : '/' ∉ ending.toList) {dirs names : List String}
    (hdirs : dirs ≠ []) (hd : Slashless dirs) (hn : Slashless names) (hne : names ≠ []) :
    matchTokens ((Path.ofSegments dirs).toList.map .literal ++ .innerDirs :: nameTokens ending)
        (bytes (Path.ofSegments names)) = true ↔
      dirs <+: names.dropLast ∧ bytes ending <:+ bytes (names.getLast hne) := by
  simp only [matchTokens_literals, matchTokens_innerDirs]
  rw [Path.prefix_dropLast_iff hdirs]
  constructor
  · rintro ⟨_, he, rest, rfl, hm⟩
    obtain ⟨last, hlast, rfl, rfl⟩ := (exists_bytes_inside hdirs hd hn).1 he
    rw [matchTokens_anywhere hending (hn.of_suffix (List.suffix_append _ _)) hlast] at hm
    exact ⟨⟨last, hlast, rfl⟩, by rwa [List.getLast_append_of_ne_nil _ hlast]⟩
  · rintro ⟨⟨last, hlast, rfl⟩, hends⟩
    rw [List.getLast_append_of_ne_nil _ hlast] at hends
    exact ⟨_, (exists_bytes_inside hdirs hd hn).2 ⟨last, hlast, rfl, rfl⟩, _, rfl,
      (matchTokens_anywhere hending (hn.of_suffix (List.suffix_append _ _)) hlast).2 hends⟩

/-- **Files beneath a directory `name`**, wherever it is. -/
theorem matchTokens_beneath {name : String} (hname : '/' ∉ name.toList) {names : List String}
    (hn : Slashless names) (hne : names ≠ []) :
    matchTokens (.leadingDirs :: (name.toList.map .literal ++ .innerDirs :: nameTokens ""))
        (bytes (Path.ofSegments names)) = true ↔ name ∈ names.dropLast := by
  have hone : Path.ofSegments [name] = name := by
    rw [Path.ofSegments, List.map_singleton, Path.unpieces, String.ofList_toList]
  have hlast : ∀ last, last ≠ [] → last <:+ names →
      (matchTokens (name.toList.map .literal ++ .innerDirs :: nameTokens "")
        (bytes (Path.ofSegments last)) = true ↔ [name] <+: last.dropLast) := by
    intro last hlne hs
    have h := matchTokens_inside (show '/' ∉ "".toList by decide) (List.cons_ne_nil name [])
      (by simpa [Slashless] using hname) (hn.of_suffix hs) hlne
    rw [hone] at h
    rw [h]
    simp [bytes_eq]
  rw [matchTokens, Bool.or_eq_true, List.any_eq_true, hlast names hne List.suffix_rfl]
  constructor
  · rintro (hpre | ⟨rest, hrest, hm⟩)
    · exact hpre.mem List.mem_cons_self
    · obtain ⟨last, hlne, -, hs, rfl⟩ := (mem_afterSlashes hn).1 hrest
      have hpre := (hlast last hlne hs).1 hm
      obtain ⟨front, rfl⟩ := hs
      rw [List.dropLast_append_of_ne_nil hlne]
      exact List.mem_append_right _ (hpre.mem List.mem_cons_self)
  · intro hmem
    obtain ⟨front, more, hsplit⟩ := List.append_of_mem hmem
    have hnames : names = front ++ (name :: more ++ [names.getLast hne]) := by
      rw [← List.append_assoc, ← hsplit, List.dropLast_concat_getLast]
    have hpre : [name] <+: (name :: more ++ [names.getLast hne]).dropLast := by
      rw [List.dropLast_concat]
      exact ⟨more, rfl⟩
    have hs : name :: more ++ [names.getLast hne] <:+ names := ⟨front, hnames.symm⟩
    by_cases hfront : front = []
    · rw [hfront, List.nil_append] at hnames
      rw [← hnames] at hpre
      exact .inl hpre
    · refine .inr ⟨_, (mem_afterSlashes hn).2 ⟨_, by simp, fun he => hfront ?_, hs, rfl⟩,
        (hlast _ (by simp) hs).2 hpre⟩
      rw [he] at hnames
      exact List.append_left_eq_self.1 hnames.symm

/-! ## Reading -/

/-- The characters that may mean something else than themselves. -/
def special : List Char := ['\\', '*', '?', '[', ']', '\x7b', '\x7d']

/-- A `text` that stands for itself in a pattern: it holds no character that is `special`. -/
def Plain (text : List Char) : Prop := ∀ c ∈ text, c ∉ special

instance : DecidablePred Plain := List.decidableBAll (· ∉ special)

/-- The characters that mean something else where no class is open. -/
def active : List Char := ['\\', '*', '?', '[', '\x7b', '\x7d']

/-- A `text` that a pattern reads as itself: a bracket that closes no class is one of its
characters. -/
def Literal (text : List Char) : Prop := ∀ c ∈ text, c ∉ active

instance : DecidablePred Literal := List.decidableBAll (· ∉ active)

theorem Plain.literal {text : List Char} (h : Plain text) : Literal text := by
  intro c hc hactive
  have hsub : active ⊆ special := by decide
  exact h c hc (hsub hactive)

variable {lenient : Bool} {before : Option Char} {b : Branch}

theorem parseFrom_cons_literal {c : Char} (hc : c ∉ active) (rest : List Char) :
    parseFrom lenient true before [] b (c :: rest) =
      parseFrom lenient true (some c) [] (b.push (.literal c)) rest := by
  simp only [active, List.mem_cons, List.not_mem_nil, or_false, not_or] at hc
  obtain ⟨h1, h2, h3, h4, h5, h6⟩ := hc
  by_cases hcomma : c = ','
  · rw [hcomma, parseFrom.eq_8]
  · rw [parseFrom.eq_13 _ _ _ _ _ _ _ h3 (fun _ he => absurd he h2) h2 h5 h6 hcomma h1 h4]

/-- **Reading a `Literal` text**: its characters are put on the branch. -/
theorem parseFrom_literal {text : List Char} (h : Literal text) (tail : List Char) :
    parseFrom lenient true before [] b (text ++ tail) =
      parseFrom lenient true (text.getLast?.or before) []
        { b with tokens := (text.map .literal).reverse ++ b.tokens } tail := by
  induction text generalizing before b with
  | nil => rfl
  | cons c text ih =>
    rw [List.cons_append, parseFrom_cons_literal (h c List.mem_cons_self),
      ih fun d hd => h d (List.mem_cons_of_mem _ hd), List.getLast?_cons]
    cases text.getLast? <;> simp [Branch.push]

/-- The directory `text` and whatever is inside, up to a star for the last name. -/
def inside (text : List Char) : List Char := text ++ ['/', '*', '*', '/', '*']

theorem parseFrom_inside {text tail : List Char} (h : Literal text) (htail : tail.head? ≠ some '*') :
    parseFrom lenient true before [] b (inside text ++ tail) =
      parseFrom lenient true (some '*') []
        { b with tokens := .anyName :: .innerDirs :: ((text.map .literal).reverse ++ b.tokens) }
        tail := by
  have hslash : Literal ['/'] := by decide
  have hstar : ∀ more, tail ≠ '*' :: more := by
    rintro more rfl
    exact htail rfl
  have hsplit : inside text ++ tail = text ++ (['/'] ++ '*' :: '*' :: '/' :: '*' :: tail) := by
    simp [inside]
  rw [hsplit, parseFrom_literal h, parseFrom_literal hslash, parseFrom.eq_3]
  simp only [doubleStar, Branch.isEmpty, Branch.replaceSlash, List.map_cons, List.map_nil,
    List.reverse_singleton, List.singleton_append, List.isEmpty_cons, List.getLast?_singleton,
    Option.some_or, Bool.false_and, Bool.false_eq_true, if_false, if_true, true_or]
  rw [parseFrom.eq_4 _ _ _ _ _ _ hstar]
  rfl

theorem parseFrom_leading (rest : List Char) :
    parseFrom lenient true before [] {} ('*' :: '*' :: '/' :: rest) =
      parseFrom lenient true (some '/') [] { tokens := [.leadingDirs] } rest := by
  rw [parseFrom.eq_3]
  simp [doubleStar, Branch.isEmpty, Branch.push]

/-- **The pattern of what is `inside` a directory.** -/
theorem parse_inside {text : List Char} (h : Literal text) :
    Glob.parse lenient (String.ofList (inside text)) =
      .ok ⟨[text.map .literal ++ .innerDirs :: nameTokens ""]⟩ := by
  rw [Glob.parse, String.toList_ofList, ← List.append_nil (inside text),
    parseFrom_inside h (by decide), parseFrom]
  simp [Branch.expansions, nameTokens]

/-- **The pattern of what is beneath a directory `text`**, wherever it is. -/
theorem parse_beneath {text : List Char} (h : Literal text) :
    Glob.parse lenient (String.ofList ('*' :: '*' :: '/' :: inside text)) =
      .ok ⟨[.leadingDirs :: (text.map .literal ++ .innerDirs :: nameTokens "")]⟩ := by
  rw [Glob.parse, String.toList_ofList, parseFrom_leading, ← List.append_nil (inside text),
    parseFrom_inside h (by decide), parseFrom]
  simp [Branch.expansions, nameTokens]

end FlowMigration.Glob
