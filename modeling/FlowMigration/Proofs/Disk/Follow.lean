import FlowMigration.Proofs.Disk.Tree

/-!
# Following paths

`Disk.follow` one piece at a time: `Disk.step` says where one piece leads, how many links are left
and what has to be followed before the rest. A step asks only for the kinds of nodes
(`Node.kindAt`), not for what is in files.

* `follow_cons`, `follow_induction`: following is stepping until nothing is left.
* `follow_append`: what follows a front goes on from the place that the front leads to.
* `follow_mono`: more links do no harm; `follow_add`: those of a front and those of the rest add up.
* `locate_joinAll`: names lead from the place of a path to the place of the joined path.
-/

namespace FlowMigration

/-- What `Disk.follow` asks of a node. -/
inductive NodeKind where
  | file
  | link (target : String)
  | dir
deriving DecidableEq

namespace Node

def kind : Node → NodeKind
  | .file _ => .file
  | .link target => .link target
  | .dir _ => .dir

/-- The `kind` of what stands at `place`. -/
def kindAt (root : Node) (place : List String) : Option NodeKind := (root.get? place).map kind

theorem kindAt_eq_dir {root : Node} {place : List String} :
    root.kindAt place = some .dir ↔ ∃ entries, root.get? place = some (.dir entries) := by
  unfold kindAt
  cases root.get? place with
  | none => simp
  | some n => cases n <;> simp [kind]

theorem kindAt_eq_file {root : Node} {place : List String} :
    root.kindAt place = some .file ↔ ∃ content, root.get? place = some (.file content) := by
  unfold kindAt
  cases root.get? place with
  | none => simp
  | some n => cases n <;> simp [kind]

theorem kindAt_eq_link {root : Node} {place : List String} {target : String} :
    root.kindAt place = some (.link target) ↔ root.get? place = some (.link target) := by
  unfold kindAt
  cases root.get? place with
  | none => simp
  | some n => cases n <;> simp [kind]

theorem kindAt_above {root : Node} {place rest : List String} {k : NodeKind} (hrest : rest ≠ [])
    (h : root.kindAt (place ++ rest) = some k) : root.kindAt place = some .dir := by
  obtain ⟨node, hn, -⟩ := Option.map_eq_some_iff.1 h
  exact kindAt_eq_dir.2 (exists_dir_of_get? hrest hn)

theorem kindAt_dropLast {root : Node} {place : List String}
    (h : root.kindAt place = some .dir) : root.kindAt place.dropLast = some .dir := by
  rcases List.eq_nil_or_concat place with rfl | ⟨front, name, rfl⟩
  · exact h
  · rw [List.concat_eq_append] at h ⊢
    rw [List.dropLast_concat]
    exact kindAt_above (List.cons_ne_nil name []) h

theorem kindAt_take {root : Node} {place : List String} {n : Nat}
    (h : root.kindAt place = some .dir) : root.kindAt (place.take n) = some .dir := by
  by_cases hdrop : place.drop n = []
  · rwa [← List.append_nil (place.take n), ← hdrop, List.take_append_drop]
  · exact kindAt_above hdrop (by rwa [List.take_append_drop])

end Node

namespace Disk

theorem start_ne_nil (here : List String) (path : String) : (start here path).2 ≠ [] := by
  unfold start
  split <;> exact Path.pieces_ne_nil _

theorem start_slash {here : List String} {path : String} {cs : List Char}
    (h : path.toList = '/' :: cs) : start here path = ([], Path.pieces cs) := by
  simp [start, h]

theorem start_plain {here : List String} {path : String} (h : path.toList.head? ≠ some '/') :
    start here path = (here, Path.pieces path.toList) := by
  unfold start
  split
  · next he => simp [he] at h
  · rfl

/-! ## One step -/

/-- Where `piece` leads from the place `here`: the links that are left, the next place and the
pieces to follow from there before the others. -/
def step (kindAt : List String → Option NodeKind) (links : Nat) (here : List String)
    (piece : List Char) : Except FileError (Nat × List String × List (List Char)) :=
  match kindAt here with
  | some .dir =>
    if piece = [] ∨ piece = ['.'] then .ok (links, here, [])
    else if piece = ['.', '.'] then .ok (links, here.dropLast, [])
    else if (String.ofList piece).utf8ByteSize > maxNameBytes then .error .nameTooLong
    else
      match kindAt (here ++ [String.ofList piece]) with
      | none => .error .notFound
      | some (.link target) =>
        match links with
        | 0 => .error .tooManyLinks
        | links + 1 => if target.isEmpty then .error .notFound else .ok (links, start here target)
      | some _ => .ok (links, here ++ [String.ofList piece], [])
  | _ => .error .notDirectory

variable {root : Node} {links : Nat} {here : List String} {piece : List Char}

/-- How a path goes on at a link, with as many links left. -/
def goOn (root : Node) :
    Nat → List String → String → List (List Char) → Except FileError (List String)
  | 0, _, _, _ => .error .tooManyLinks
  | links + 1, here, target, rest =>
    if target.isEmpty then .error .notFound
    else follow root links (start here target).1 ((start here target).2 ++ rest)

theorem follow_eq (root : Node) (links : Nat) :
    follow root links = followWith root (goOn root links) := by
  cases links <;> rfl

theorem follow_nil (root : Node) (links : Nat) (here : List String) :
    follow root links here [] = .ok here := by
  rw [follow_eq, followWith]

/-- **Following is stepping**: `follow` takes the first piece by `step`. -/
theorem follow_cons (root : Node) (links : Nat) (here : List String) (piece : List Char)
    (rest : List (List Char)) :
    follow root links here (piece :: rest) =
      match step root.kindAt links here piece with
      | .ok (left, next, more) => follow root left next (more ++ rest)
      | .error e => .error e := by
  rw [follow_eq, followWith, ← follow_eq]
  unfold step
  rw [Node.kindAt, Node.kindAt, Node.get?_concat]
  cases hn : root.get? here with
  | none => rfl
  | some n =>
    cases n with
    | file content => rfl
    | link target => rfl
    | dir entries =>
      simp only [Option.map_some, Node.kind]
      by_cases h₁ : piece = [] ∨ piece = ['.']
      · simp [h₁]
      · by_cases h₂ : piece = ['.', '.']
        · simp [h₂]
        · by_cases h₃ : (String.ofList piece).utf8ByteSize > maxNameBytes
          · simp [h₁, h₂, h₃]
          · simp only [h₁, h₂, h₃, if_false]
            cases Entries.get? (String.ofList piece) entries with
            | none => rfl
            | some child =>
              cases child with
              | file content => rfl
              | dir inside => rfl
              | link target =>
                cases links with
                | zero => rfl
                | succ links => by_cases ht : target.isEmpty <;> simp [goOn, ht, Node.kind]

/-- A `piece` that stands for a name. -/
structure Named (piece : List Char) : Prop where
  not_idle : ¬(piece = [] ∨ piece = ['.'])
  not_up : piece ≠ ['.', '.']
  short : ¬(String.ofList piece).utf8ByteSize > maxNameBytes

/-- The steps that lead on, as `step` does: one constructor for what each kind of piece and of entry
does. -/
inductive Leads (kindAt : List String → Option NodeKind) (here : List String)
    (piece : List Char) : Nat → Nat → List String → List (List Char) → Prop
  | idle {links : Nat} (hd : kindAt here = some .dir) (hp : piece = [] ∨ piece = ['.']) :
      Leads kindAt here piece links links here []
  | up {links : Nat} (hd : kindAt here = some .dir) (hp : piece = ['.', '.']) :
      Leads kindAt here piece links links here.dropLast []
  | entry {links : Nat} (hd : kindAt here = some .dir) (hp : Named piece)
      (hk : kindAt (here ++ [String.ofList piece]) = some .dir ∨
        kindAt (here ++ [String.ofList piece]) = some .file) :
      Leads kindAt here piece links links (here ++ [String.ofList piece]) []
  | link {links : Nat} {target : String} (hd : kindAt here = some .dir) (hp : Named piece)
      (hk : kindAt (here ++ [String.ofList piece]) = some (.link target)) (ht : target ≠ "") :
      Leads kindAt here piece (links + 1) links (start here target).1 (start here target).2

section
variable {kindAt : List String → Option NodeKind} {left : Nat} {next : List String}
  {more : List (List Char)}

/-- **Inversion of a step**: where `step` leads on, it is one of `Leads`. -/
theorem step_eq_ok :
    step kindAt links here piece = .ok (left, next, more) ↔
      Leads kindAt here piece links left next more := by
  constructor
  · intro h
    unfold step at h
    split at h
    · next hd =>
      split at h
      · next hp => cases h; exact .idle hd hp
      · next hidle =>
        split at h
        · next hp => cases h; exact .up hd hp
        · next hup =>
          split at h
          · cases h
          · next hshort =>
            have hp : Named piece := ⟨hidle, hup, hshort⟩
            split at h
            · cases h
            · next target hk =>
              split at h
              · cases h
              · split at h
                · cases h
                · next ht =>
                  simp only [Except.ok.injEq, Prod.mk.injEq] at h
                  obtain ⟨rfl, hs⟩ := h
                  obtain ⟨rfl, rfl⟩ : (start here target).1 = next ∧ (start here target).2 = more :=
                    ⟨congrArg Prod.fst hs, congrArg Prod.snd hs⟩
                  exact .link hd hp hk (by simpa using ht)
            · next k hk hl =>
              cases h
              cases k with
              | link target => exact absurd rfl (hk target)
              | dir => exact .entry hd hp (.inl hl)
              | file => exact .entry hd hp (.inr hl)
    · cases h
  · intro h
    unfold step
    cases h with
    | idle hd hp => simp [hd, hp]
    | up hd hp => simp [hd, hp]
    | entry hd hp hk => rcases hk with hk | hk <;> simp [hd, hk, hp.not_idle, hp.not_up, hp.short]
    | link hd hp hk ht => simp [hd, hk, ht, hp.not_idle, hp.not_up, hp.short]

theorem step_measure (h : step kindAt links here piece = .ok (left, next, more)) :
    left < links ∨ left = links ∧ more = [] := by
  cases step_eq_ok.1 h with
  | idle | up | entry => exact .inr ⟨rfl, rfl⟩
  | link => exact .inl (Nat.lt_succ_self _)

end

/-- Induction along the steps of a path, by `step_measure`. -/
theorem follow_induction (kindAt : List String → Option NodeKind)
    {motive : Nat → List String → List (List Char) → Prop}
    (nil : ∀ links here, motive links here [])
    (cons : ∀ links here piece rest,
      (∀ left next more, step kindAt links here piece = .ok (left, next, more) →
        motive left next (more ++ rest)) → motive links here (piece :: rest))
    (links : Nat) (here : List String) (todo : List (List Char)) : motive links here todo := by
  induction links using Nat.strongRecOn generalizing here todo with
  | _ links ihl =>
    induction todo generalizing here with
    | nil => exact nil links here
    | cons piece rest iht =>
      apply cons links here piece rest
      intro left next more h
      rcases step_measure h with hlt | ⟨rfl, rfl⟩
      · exact ihl left hlt next (more ++ rest)
      · exact iht next

theorem follow_cons_ok {rest : List (List Char)} {place : List String} :
    follow root links here (piece :: rest) = .ok place ↔
      ∃ left next more, Leads root.kindAt here piece links left next more ∧
        follow root left next (more ++ rest) = .ok place := by
  rw [follow_cons]
  cases hs : step root.kindAt links here piece with
  | error e =>
    simp only [reduceCtorEq, false_iff, not_exists, not_and]
    intro left next more hl
    rw [step_eq_ok.2 hl] at hs
    cases hs
  | ok r =>
    obtain ⟨left, next, more⟩ := r
    refine ⟨fun h => ⟨left, next, more, step_eq_ok.1 hs, h⟩, ?_⟩
    rintro ⟨left', next', more', hl, h⟩
    rw [step_eq_ok.2 hl] at hs
    cases hs
    exact h

theorem follow_congr {root' : Node} (h : root.kindAt = root'.kindAt) :
    follow root = follow root' := by
  funext links here todo
  induction links, here, todo using follow_induction root.kindAt with
  | nil links here => rw [follow_nil, follow_nil]
  | cons links here piece rest ih =>
    rw [follow_cons, follow_cons, ← h]
    cases hs : step root.kindAt links here piece with
    | error e => rfl
    | ok r => exact ih r.1 r.2.1 r.2.2 hs

/-! ## Fronts of a path -/

/-- **What follows a `front`** goes on from the place that the front leads to, with the links that
it left; a front that leads nowhere fails every path. -/
theorem follow_append (root : Node) (links : Nat) (here : List String) (front : List (List Char)) :
    (∃ e, ∀ rest, follow root links here (front ++ rest) = .error e) ∨
      ∃ left mid, left ≤ links ∧
        ∀ rest, follow root links here (front ++ rest) = follow root left mid rest := by
  induction links, here, front using follow_induction root.kindAt with
  | nil links here => exact .inr ⟨links, here, Nat.le_refl _, fun rest => rfl⟩
  | cons links here piece front ih =>
    simp only [List.cons_append, follow_cons]
    cases hs : step root.kindAt links here piece with
    | error e => exact .inl ⟨e, fun rest => rfl⟩
    | ok r =>
      obtain ⟨left, next, more⟩ := r
      have hle : left ≤ links := by rcases step_measure hs with h | ⟨rfl, -⟩ <;> omega
      rcases ih left next more hs with ⟨e, he⟩ | ⟨left', mid, hl, hm⟩
      · exact .inl ⟨e, fun rest => by rw [← he rest, List.append_assoc]⟩
      · exact .inr ⟨left', mid, Nat.le_trans hl hle, fun rest => by
          rw [← hm rest, List.append_assoc]⟩

theorem follow_append_of_ok {mid : List String} {front : List (List Char)}
    (h : follow root links here front = .ok mid) :
    ∃ left ≤ links, ∀ rest, follow root links here (front ++ rest) = follow root left mid rest := by
  rcases follow_append root links here front with ⟨e, he⟩ | ⟨left, mid', hl, hm⟩
  · have := he []
    rw [List.append_nil, h] at this
    cases this
  · have := hm []
    rw [List.append_nil, h, follow_nil] at this
    cases this
    exact ⟨left, hl, hm⟩

/-- A path that leads somewhere has a `front` that does. -/
theorem exists_mid_of_follow {place : List String} {front rest : List (List Char)}
    (h : follow root links here (front ++ rest) = .ok place) :
    ∃ left mid, left ≤ links ∧ follow root links here front = .ok mid ∧
      follow root left mid rest = .ok place := by
  rcases follow_append root links here front with ⟨e, he⟩ | ⟨left, mid, hl, hm⟩
  · rw [he rest] at h
    cases h
  · refine ⟨left, mid, hl, ?_, hm rest ▸ h⟩
    have := hm []
    rwa [List.append_nil, follow_nil] at this

/-! ## Links -/

theorem Leads.mono {kindAt : List String → Option NodeKind} {links' left : Nat}
    {next : List String} {more : List (List Char)} (hle : links ≤ links')
    (h : Leads kindAt here piece links left next more) :
    ∃ left', left ≤ left' ∧ Leads kindAt here piece links' left' next more := by
  cases h with
  | idle hd hp => exact ⟨links', hle, .idle hd hp⟩
  | up hd hp => exact ⟨links', hle, .up hd hp⟩
  | entry hd hp hk => exact ⟨links', hle, .entry hd hp hk⟩
  | link hd hp hk ht =>
    obtain ⟨l', rfl⟩ : ∃ l', links' = l' + 1 := ⟨links' - 1, by omega⟩
    exact ⟨l', by omega, .link hd hp hk ht⟩

/-- **More `links` do no harm** to a path that leads somewhere. -/
theorem follow_mono {links' : Nat} {todo : List (List Char)} {place : List String}
    (hle : links ≤ links') (h : follow root links here todo = .ok place) :
    follow root links' here todo = .ok place := by
  induction links, here, todo using follow_induction root.kindAt generalizing links' with
  | nil links here =>
    rw [follow_nil] at h ⊢
    exact h
  | cons links here piece rest ih =>
    obtain ⟨left, next, more, hl, h⟩ := follow_cons_ok.1 h
    obtain ⟨left', hle', hl'⟩ := hl.mono hle
    exact follow_cons_ok.2 ⟨left', next, more, hl', ih left next more (step_eq_ok.2 hl) hle' h⟩

theorem Leads.add {kindAt : List String → Option NodeKind} {left : Nat} {next : List String}
    {more : List (List Char)} (h : Leads kindAt here piece links left next more) (extra : Nat) :
    Leads kindAt here piece (links + extra) (left + extra) next more := by
  cases h with
  | idle hd hp => exact .idle hd hp
  | up hd hp => exact .up hd hp
  | entry hd hp hk => exact .entry hd hp hk
  | link hd hp hk ht =>
    rw [Nat.succ_add]
    exact .link hd hp hk ht

/-- **The links add up**: the `links` that suffice for `front` and the `extra` ones that suffice for
`rest` behind it suffice for both. -/
theorem follow_add {extra : Nat} {front rest : List (List Char)} {mid place : List String}
    (hfront : follow root links here front = .ok mid)
    (hrest : follow root extra mid rest = .ok place) :
    follow root (links + extra) here (front ++ rest) = .ok place := by
  induction links, here, front using follow_induction root.kindAt with
  | nil links here =>
    rw [follow_nil] at hfront
    obtain rfl := Except.ok.inj hfront
    exact follow_mono (Nat.le_add_left extra links) hrest
  | cons links here piece front ih =>
    obtain ⟨left, next, more, hl, hf⟩ := follow_cons_ok.1 hfront
    rw [List.cons_append]
    refine follow_cons_ok.2 ⟨left + extra, next, more, hl.add extra, ?_⟩
    rw [← List.append_assoc]
    exact ih left next more (step_eq_ok.2 hl) hf

/-! ## Where a path ends -/

/-- A file or a directory stands at `place`. -/
def Stands (root : Node) (place : List String) : Prop :=
  root.kindAt place = some .dir ∨ root.kindAt place = some .file

theorem Stands.above {place rest : List String} (h : Stands root (place ++ rest))
    (hrest : rest ≠ []) : root.kindAt place = some .dir := by
  rcases h with h | h <;> exact Node.kindAt_above hrest h

theorem Stands.exists_node {place : List String} (h : Stands root place) :
    ∃ node, root.get? place = some node := by
  rcases h with h | h
  · exact (Node.kindAt_eq_dir.1 h).imp' .dir fun _ => id
  · exact (Node.kindAt_eq_file.1 h).imp' .file fun _ => id

theorem stands_of_follow {rest : List (List Char)} {place : List String}
    (h : follow root links here (piece :: rest) = .ok place) : Stands root place := by
  have key : ∀ links here todo, follow root links here todo = .ok place →
      (todo = [] → Stands root here) → Stands root place := by
    intro links here todo
    induction links, here, todo using follow_induction root.kindAt with
    | nil links here =>
      intro h hs
      rw [follow_nil] at h
      cases h
      exact hs rfl
    | cons links here piece rest ih =>
      intro h _
      obtain ⟨left, next, more, hl, h⟩ := follow_cons_ok.1 h
      apply ih left next more (step_eq_ok.2 hl) h
      intro hnil
      cases hl with
      | idle hd hp => exact .inl hd
      | up hd hp => exact .inl (Node.kindAt_dropLast hd)
      | entry hd hp hk => exact hk
      | link hd hp hk ht => exact absurd (List.append_eq_nil_iff.1 hnil).1 (start_ne_nil _ _)
  exact key links here _ h fun hnil => absurd hnil (List.cons_ne_nil _ _)

theorem Named.of_legal {name : String} (h : LegalName name) : Named name.toList := by
  have h1 : name.toList ≠ [] := by simpa using h.ne_empty
  have h2 : name.toList ≠ ['.'] := fun he => h.ne_here (String.toList_injective he)
  have h3 : name.toList ≠ ['.', '.'] := fun he => h.ne_up (String.toList_injective he)
  exact ⟨by simp [h1, h2], h3, by simpa using h.short⟩

/-- **Names of directories lead on without links**, and what `follow`s goes on from there. -/
theorem follow_names_append {names : List String} (hl : ∀ n ∈ names, LegalName n)
    (hs : Stands root (here ++ names)) (rest : List (List Char)) :
    follow root links here (names.map String.toList ++ rest) =
      follow root links (here ++ names) rest := by
  induction names generalizing here with
  | nil => simp
  | cons n names ih =>
    have hd : root.kindAt here = some .dir := hs.above (List.cons_ne_nil n names)
    have hassoc : here ++ n :: names = here ++ [n] ++ names := by simp
    rw [hassoc] at hs ⊢
    have hn : Stands root (here ++ [n]) := by
      cases names with
      | nil => simpa using hs
      | cons m ms => exact .inl (hs.above (List.cons_ne_nil m ms))
    have hlead : Leads root.kindAt here n.toList links links (here ++ [n]) [] := by
      have hname : String.ofList n.toList = n := String.ofList_toList
      have hentry : Leads root.kindAt here n.toList links links
          (here ++ [String.ofList n.toList]) [] :=
        .entry hd (.of_legal (hl n (by simp))) (by rwa [hname])
      rwa [hname] at hentry
    rw [List.map_cons, List.cons_append, follow_cons, step_eq_ok.2 hlead]
    exact ih (fun m hm => hl m (List.mem_cons_of_mem _ hm)) hs

theorem follow_names {names : List String} (hl : ∀ n ∈ names, LegalName n)
    (hs : Stands root (here ++ names)) :
    follow root links here (names.map String.toList) = .ok (here ++ names) := by
  rw [← List.append_nil (names.map _), follow_names_append hl hs, follow_nil]

/-! ## Joined paths -/

/-- A joined path starts where its `base` does, and the `names` are the last pieces to follow. -/
theorem start_joinAll {base : String} {names : List String} (hb : base ≠ "")
    (hn : ∀ n ∈ names, Path.IsName n) (here : List String) :
    ∃ front, start here (Path.joinAll base names) =
        ((start here base).1, front ++ names.map String.toList) ∧
      ((start here base).2 = front ∨ (start here base).2 = front ++ [[]]) := by
  have hcs : base.toList ≠ [] := by simpa using hb
  have hpath := Path.toList_joinAll hb hn
  by_cases hroot : base.toList.head? = some '/'
  · obtain ⟨cs, hbase⟩ := List.head?_eq_some_iff.1 hroot
    obtain ⟨front, hf, hw⟩ := Path.pieces_withNames cs hn
    have hjoined : (Path.joinAll base names).toList = '/' :: Path.withNames cs names := by
      rw [hpath, hbase]
      exact Path.withNames_append ['/'] cs names fun _ => rfl
    rw [start_slash hbase, start_slash hjoined, hf]
    exact ⟨front, rfl, hw⟩
  · obtain ⟨front, hf, hw⟩ := Path.pieces_withNames base.toList hn
    have hjoined : (Path.joinAll base names).toList.head? ≠ some '/' := by
      rw [hpath, Path.head?_withNames hcs]
      exact hroot
    rw [start_plain hroot, start_plain hjoined, hpath, hf]
    exact ⟨front, rfl, hw⟩

/-- An empty piece or a dot leads nowhere else than `here`. -/
theorem follow_idle {place : List String} {piece : List Char}
    (hidle : piece = [] ∨ piece = ['.']) :
    follow root links here [piece] = .ok place ↔ root.kindAt here = some .dir ∧ here = place := by
  constructor
  · intro h
    obtain ⟨left, next, more, hl, h⟩ := follow_cons_ok.1 h
    cases hl with
    | idle hd hp =>
      rw [List.append_nil, follow_nil] at h
      exact ⟨hd, Except.ok.inj h⟩
    | up hd hu => rcases hidle with rfl | rfl <;> simp at hu
    | entry hd hn hk => exact absurd hidle hn.not_idle
    | link hd hn hk ht => exact absurd hidle hn.not_idle
  · rintro ⟨hd, rfl⟩
    exact follow_cons_ok.2 ⟨links, here, [], .idle hd hidle, follow_nil _ _ _⟩

/-- Nor does one in front of the pieces `rest`. -/
theorem follow_idle_cons {rest : List (List Char)} (hd : root.kindAt here = some .dir)
    (hidle : piece = [] ∨ piece = ['.']) :
    follow root links here (piece :: rest) = follow root links here rest := by
  rw [follow_cons, step_eq_ok.2 (.idle hd hidle)]
  rfl

/-- An empty piece at the end of `ps` leads nowhere else than `front` does. -/
theorem follow_front {place : List String} {ps front : List (List Char)}
    (hps : ps = front ∨ ps = front ++ [[]]) (h : follow root links here ps = .ok place) :
    follow root links here front = .ok place := by
  rcases hps with rfl | rfl
  · exact h
  · obtain ⟨left, mid, -, hm, hp⟩ := exists_mid_of_follow h
    obtain ⟨-, rfl⟩ := (follow_idle (.inl rfl)).1 hp
    exact hm

variable {disk : Disk} {path : String} {place : List String}

theorem locate_eq_ok :
    disk.locate path = .ok place ↔ '\x00' ∉ path.toList ∧ path ≠ "" ∧
      follow disk.root maxLinks (start disk.workingDir path).1
        (start disk.workingDir path).2 = .ok place := by
  unfold locate
  by_cases h₁ : '\x00' ∈ path.toList
  · simp [h₁]
  · by_cases h₂ : path = ""
    · simp [h₂]
    · simp [h₁, h₂]

/-- A path with names behind it, where `front` are the pieces of the path itself. -/
theorem exists_front_joinAll {names : List String} (hb : disk.locate path = .ok place)
    (hl : ∀ n ∈ names, LegalName n) :
    ∃ front, ((start disk.workingDir path).2 = front ∨
        (start disk.workingDir path).2 = front ++ [[]]) ∧
      ∀ there, disk.locate (Path.joinAll path names) = .ok there ↔
        follow disk.root maxLinks (start disk.workingDir path).1 (front ++ names.map String.toList) =
          .ok there := by
  obtain ⟨hnul, hne, -⟩ := locate_eq_ok.1 hb
  have hn : ∀ n ∈ names, Path.IsName n := fun n hn => (hl n hn).toIsName
  have hnul' : '\x00' ∉ (Path.joinAll path names).toList := by
    intro hc
    rw [Path.toList_joinAll hne hn] at hc
    rcases Path.mem_withNames hc with hc | hc | ⟨n, hmem, hc⟩
    · exact hnul hc
    · exact absurd hc (by decide)
    · exact (hl n hmem).no_nul hc
  obtain ⟨front, hstart, hfront⟩ := start_joinAll hne hn disk.workingDir
  refine ⟨front, hfront, fun there => ?_⟩
  rw [locate_eq_ok, hstart]
  exact ⟨fun ⟨_, _, hf⟩ => hf, fun hf => ⟨hnul', Path.joinAll_ne_empty hne hn, hf⟩⟩

/-- **Names lead on** from the `place` of a path. -/
theorem locate_joinAll {names : List String} (hb : disk.locate path = .ok place)
    (hl : ∀ n ∈ names, LegalName n) (hs : Stands disk.root (place ++ names)) :
    disk.locate (Path.joinAll path names) = .ok (place ++ names) := by
  obtain ⟨-, -, hf⟩ := locate_eq_ok.1 hb
  obtain ⟨front, hfront, hjoined⟩ := exists_front_joinAll hb hl
  obtain ⟨left, -, hrest⟩ := follow_append_of_ok (follow_front hfront hf)
  rw [hjoined, hrest]
  exact follow_names hl hs

/-- What `names` lead to from a path, they lead to from its `place` with all links left. -/
theorem follow_of_locate_joinAll {names there : List String} (hb : disk.locate path = .ok place)
    (hl : ∀ n ∈ names, LegalName n) (h : disk.locate (Path.joinAll path names) = .ok there) :
    follow disk.root maxLinks place (names.map String.toList) = .ok there := by
  obtain ⟨-, -, hf⟩ := locate_eq_ok.1 hb
  obtain ⟨front, hfront, hjoined⟩ := exists_front_joinAll hb hl
  obtain ⟨left, hle, hrest⟩ := follow_append_of_ok (follow_front hfront hf)
  rw [hjoined, hrest] at h
  exact follow_mono hle h

theorem stands_of_locate (h : disk.locate path = .ok place) : Stands disk.root place := by
  obtain ⟨-, -, hf⟩ := locate_eq_ok.1 h
  cases hs : (start disk.workingDir path).2 with
  | nil => exact absurd hs (start_ne_nil _ _)
  | cons piece rest => exact stands_of_follow (hs ▸ hf)

/-- What holds `Throughout` the tree of a disk holds throughout the part that a path leads to. -/
theorem throughout_of_node {P : List (String × Node) → Prop} {node : Node}
    (h : disk.root.Throughout P) (hnode : disk.node path = .ok node) : node.Throughout P := by
  unfold Disk.node at hnode
  split at hnode
  case h_1 place _ =>
    cases hget : disk.root.get? place with
    | none => simp [hget] at hnode
    | some found =>
      obtain rfl : found = node := by simpa [hget] using hnode
      exact h.get? hget
  case h_2 => cases hnode

/-! ## Canonical paths -/

/-- The tree of `disk` is one that a file system allows, and the working directory is there. -/
structure Legal (disk : Disk) : Prop where
  wellFormed : disk.root.WellFormed
  workingDir : disk.root.kindAt disk.workingDir = some .dir

instance (disk : Disk) : Decidable disk.Legal :=
  decidable_of_iff (disk.root.WellFormed ∧ disk.root.kindAt disk.workingDir = some .dir)
    ⟨fun ⟨h₁, h₂⟩ => ⟨h₁, h₂⟩, fun ⟨h₁, h₂⟩ => ⟨h₁, h₂⟩⟩

theorem pathOf_eq_joinAll {names : List String} (h : ∀ n ∈ names, Path.IsName n) :
    pathOf names = Path.joinAll "/" names := by
  by_cases hnil : names = []
  · subst hnil
    rfl
  · obtain ⟨name, rest, rfl⟩ := List.exists_cons_of_ne_nil hnil
    have habs : Path.isAbsolute (Path.ofSegments (name :: rest)) = false :=
      Path.not_absolute_ofSegments (h name List.mem_cons_self)
    have hslash : ("/" : String).toList.getLast? = some '/' := by decide
    have hne : ("/" : String).isEmpty = false := by decide
    rw [Path.joinAll_eq_join (by decide) hnil h, Path.join, habs, hne, hslash]
    rfl

theorem pathOf_ne_empty (place : List String) : pathOf place ≠ "" := by
  intro he
  have hlist := congrArg String.toList he
  rw [pathOf, String.toList_append] at hlist
  simp at hlist

theorem joinAll_pathOf {names : List String} (h : ∀ n ∈ place ++ names, Path.IsName n) :
    Path.joinAll (pathOf place) names = pathOf (place ++ names) := by
  rw [pathOf_eq_joinAll h, pathOf_eq_joinAll fun n hn => h n (List.mem_append_left _ hn),
    Path.joinAll_append]

theorem Legal.top (h : disk.Legal) : disk.root.kindAt [] = some .dir :=
  Node.kindAt_take (n := 0) h.workingDir

/-- **The absolute path of a place** where something `Stands` leads there. -/
theorem locate_pathOf (hw : disk.root.WellFormed) (htop : disk.root.kindAt [] = some .dir)
    (h : Stands disk.root place) : disk.locate (pathOf place) = .ok place := by
  obtain ⟨node, hnode⟩ := h.exists_node
  have hlegal := hw.legal hnode
  have hslash : disk.locate "/" = .ok [] := by
    refine locate_eq_ok.2 ⟨by decide, by decide, ?_⟩
    exact (follow_idle (.inl rfl)).2 ⟨htop, rfl⟩
  rw [pathOf_eq_joinAll fun n hn => (hlegal n hn).toIsName]
  exact locate_joinAll hslash hlegal h

/-- What `names` lead to from the absolute path of a directory is found with all links left. -/
theorem locate_joinAll_pathOf {names there : List String} (hw : disk.root.WellFormed)
    (htop : disk.root.kindAt [] = some .dir) (hdir : disk.root.kindAt place = some .dir)
    (hl : ∀ n ∈ names, LegalName n) :
    disk.locate (Path.joinAll (pathOf place) names) = .ok there ↔
      follow disk.root maxLinks place (names.map String.toList) = .ok there := by
  have hplace : disk.locate (pathOf place) = .ok place := locate_pathOf hw htop (.inl hdir)
  refine ⟨follow_of_locate_joinAll hplace hl, fun h => ?_⟩
  obtain ⟨inside, hinside⟩ := Node.kindAt_eq_dir.1 hdir
  have hlegal := hw.legal hinside
  have hslash : disk.locate "/" = .ok [] := locate_pathOf hw htop (.inl htop)
  obtain ⟨front, hfront, hjoined⟩ := exists_front_joinAll hslash fun n hn =>
    (List.mem_append.1 hn).elim (hlegal n) (hl n)
  rw [pathOf_eq_joinAll fun n hn => (hlegal n hn).toIsName, ← Path.joinAll_append, hjoined]
  -- the pieces of the slash lead nowhere
  have hpieces : ∀ rest, follow disk.root maxLinks [] (front ++ rest) =
      follow disk.root maxLinks [] rest := by
    intro rest
    rcases hfront with hone | hnone
    · have hfront : front = [[]] := hone.symm
      rw [hfront, List.singleton_append, follow_idle_cons htop (.inl rfl)]
    · have happend : [] ++ [[]] = front ++ [[]] := hnone
      have hfront : front = [] := (List.append_inj' happend rfl).1.symm
      rw [hfront, List.nil_append]
  have hstart : (start disk.workingDir "/").1 = [] := rfl
  rw [hstart, hpieces, List.map_append, follow_names_append hlegal (.inl hdir)]
  exact h

/-! ## The last name of a path -/

/-- The path of the directory that the pieces `front` before the last one lead to. -/
def parentText (front : List (List Char)) : String :=
  if front = [] then "."
  else if Path.unpieces front = [] then "/" else String.ofList (Path.unpieces front)

theorem splitLast_of_pieces {parent name : String} {front : List (List Char)} {last : List Char}
    (hps : Path.pieces path.toList = front ++ [last]) (h : splitLast path = some (parent, name)) :
    parentText front = parent ∧ String.ofList last = name := by
  unfold splitLast at h
  simp only [hps, List.getLast?_concat, List.dropLast_concat, List.length_append,
    List.length_singleton] at h
  split at h
  · cases h
  · simpa [parentText] using h

/-- A path starts where its `parent` does. What stands before the last `name` are the pieces of the
parent, unless that is a lone dot or slash. -/
theorem start_splitLast {parent name : String} (h : splitLast path = some (parent, name))
    (here : List String) :
    ∃ front, start here path = ((start here parent).1, front ++ [name.toList]) ∧
      ((start here parent).2 = front ∨
        front = [] ∧ ((start here parent).2 = [['.']] ∨ (start here parent).2 = [[]])) := by
  by_cases hroot : path.toList.head? = some '/'
  · -- an absolute path: the pieces after its first slash
    obtain ⟨cs, hcs⟩ := List.head?_eq_some_iff.1 hroot
    obtain ⟨front, last, hps⟩ := Path.exists_pieces_concat cs
    have hall : Path.pieces path.toList = ([] :: front) ++ [last] := by
      rw [hcs, List.cons_append, ← hps]
      rfl
    obtain ⟨rfl, rfl⟩ := splitLast_of_pieces hall h
    rw [String.toList_ofList, start_slash hcs, hps]
    cases front with
    | nil => exact ⟨[], rfl, .inr ⟨rfl, .inr rfl⟩⟩
    | cons p ps =>
      have hslash : ∀ q ∈ p :: ps, '/' ∉ q := fun q hq =>
        Path.no_slash_of_mem_pieces (hps ▸ List.mem_append_left _ hq)
      have hparent : (parentText ([] :: p :: ps)).toList = '/' :: Path.unpieces (p :: ps) := by
        simp [parentText, Path.unpieces_cons (List.cons_ne_nil p ps)]
      rw [start_slash hparent, Path.pieces_unpieces (List.cons_ne_nil p ps) hslash]
      exact ⟨p :: ps, rfl, .inl rfl⟩
  · obtain ⟨front, last, hps⟩ := Path.exists_pieces_concat path.toList
    obtain ⟨rfl, rfl⟩ := splitLast_of_pieces hps h
    rw [String.toList_ofList, start_plain hroot, hps]
    cases front with
    | nil => exact ⟨[], rfl, .inr ⟨rfl, .inl rfl⟩⟩
    | cons p ps =>
      have hne : p :: ps ≠ [] := List.cons_ne_nil p ps
      have hslash : ∀ q ∈ p :: ps, '/' ∉ q := fun q hq =>
        Path.no_slash_of_mem_pieces (hps ▸ List.mem_append_left _ hq)
      have htext : path.toList = Path.unpieces (p :: ps) ++ '/' :: last := by
        rw [← Path.unpieces_concat hne, ← hps, Path.unpieces_pieces]
      have hfront : Path.unpieces (p :: ps) ≠ [] := by
        intro he
        rw [htext, he] at hroot
        exact hroot rfl
      have hparent : (parentText (p :: ps)).toList = Path.unpieces (p :: ps) := by
        simp [parentText, hfront]
      have hhead : (parentText (p :: ps)).toList.head? ≠ some '/' := by
        obtain ⟨c, cs, hc⟩ := List.exists_cons_of_ne_nil hfront
        rw [htext, hc] at hroot
        rwa [hparent, hc]
      rw [start_plain hhead, hparent, Path.pieces_unpieces hne hslash]
      exact ⟨p :: ps, rfl, .inl rfl⟩

theorem splitLast_spec {parent name : String} (h : splitLast path = some (parent, name)) :
    ∃ front, Path.pieces path.toList = front ++ [name.toList] ∧ parentText front = parent := by
  obtain ⟨front, last, hps⟩ := Path.exists_pieces_concat path.toList
  obtain ⟨hparent, rfl⟩ := splitLast_of_pieces hps h
  exact ⟨front, by rw [hps, String.toList_ofList], hparent⟩

theorem not_idle_of_splitLast {parent name : String} (h : splitLast path = some (parent, name)) :
    ¬(name.toList = [] ∨ name.toList = ['.']) ∧ name.toList ≠ ['.', '.'] := by
  unfold splitLast at h
  obtain ⟨front, last, hps⟩ := Path.exists_pieces_concat path.toList
  simp only [hps, List.getLast?_concat] at h
  split at h
  · cases h
  · next hplain =>
    obtain ⟨-, rfl⟩ := Prod.mk.inj (Option.some.inj h)
    rw [String.toList_ofList]
    exact ⟨fun hidle => hplain (hidle.imp id .inl), fun hup => hplain (.inr (.inr hup))⟩

theorem parentText_ne_empty (front : List (List Char)) : parentText front ≠ "" := by
  unfold parentText
  split
  · decide
  · split
    · decide
    · next hne => simpa using hne

theorem no_nul_parentText {front : List (List Char)} (h : ∀ p ∈ front, '\x00' ∉ p) :
    '\x00' ∉ (parentText front).toList := by
  intro hc
  unfold parentText at hc
  split at hc
  · simp at hc
  · split at hc
    · simp at hc
    · rw [String.toList_ofList] at hc
      rcases Path.mem_unpieces hc with hc | ⟨p, hp, hc⟩
      · exact absurd hc (by decide)
      · exact h p hp hc

/-- **The `parent` of a path** leads where the pieces before the last one do, if that is a
directory. -/
theorem locate_parent (disk : Disk) (place : List String) {parent name : String}
    (h : splitLast path = some (parent, name)) (hnul : '\x00' ∉ path.toList) :
    ∃ front, (start disk.workingDir path).2 = front ++ [name.toList] ∧
      (disk.locate parent = .ok place →
        follow disk.root maxLinks (start disk.workingDir path).1 front = .ok place) ∧
      (follow disk.root maxLinks (start disk.workingDir path).1 front = .ok place →
        disk.root.kindAt place = some .dir → disk.locate parent = .ok place) := by
  obtain ⟨front, hstart, hps⟩ := start_splitLast h disk.workingDir
  obtain ⟨all, hall, hparent⟩ := splitLast_spec h
  have hnul' : '\x00' ∉ parent.toList := by
    rw [← hparent]
    exact no_nul_parentText fun p hp hc =>
      hnul (Path.mem_of_mem_pieces (hall ▸ List.mem_append_left _ hp) hc)
  have hne : parent ≠ "" := hparent ▸ parentText_ne_empty all
  rw [hstart, locate_eq_ok]
  refine ⟨front, rfl, fun ⟨_, _, hf⟩ => ?_, fun hf hd => ⟨hnul', hne, ?_⟩⟩
  · rcases hps with hps | ⟨rfl, hps⟩
    · exact hps ▸ hf
    · have hidle : (start disk.workingDir parent).1 = place := by
        rcases hps with hps | hps <;> rw [hps] at hf
        · exact ((follow_idle (.inr rfl)).1 hf).2
        · exact ((follow_idle (.inl rfl)).1 hf).2
      rw [follow_nil, hidle]
  · rcases hps with hps | ⟨rfl, hps⟩
    · exact hps ▸ hf
    · rw [follow_nil] at hf
      obtain rfl := Except.ok.inj hf
      rcases hps with hps | hps <;> rw [hps]
      · exact (follow_idle (.inr rfl)).2 ⟨hd, rfl⟩
      · exact (follow_idle (.inl rfl)).2 ⟨hd, rfl⟩

theorem entry_eq_ok {node : Node} : disk.entry path = .ok node ↔
    ∃ here, disk.place path = .ok here ∧ disk.root.get? here = some node := by
  unfold entry
  cases hp : disk.place path with
  | error e => simp
  | ok here =>
    cases hg : disk.root.get? here with
    | some found => simp [hg]
    | none =>
      simp only [Except.ok.injEq, exists_eq_left', hg, reduceCtorEq, iff_false]
      split
      · split <;> simp
      · simp

/-- What stands at a path, its `entry`, and is a file is what the path leads to. -/
theorem locate_of_entry {content : ByteArray} (hw : disk.root.WellFormed)
    (h : disk.entry path = .ok (.file content)) :
    ∃ here, disk.locate path = .ok here ∧ disk.root.get? here = some (.file content) := by
  obtain ⟨here, hp, hnode⟩ := entry_eq_ok.1 h
  refine ⟨here, ?_, hnode⟩
  unfold place at hp
  split at hp
  · cases hp
  · next hnul =>
    have hnul' : '\x00' ∉ path.toList := by simpa using hnul
    split at hp
    · exact hp
    · next parent name hs =>
      cases hl : disk.locate parent with
      | error e => simp [hl] at hp
      | ok dir =>
        obtain rfl : dir ++ [name] = here := by simpa [hl] using hp
        obtain ⟨front, hstart, hf, -⟩ := locate_parent disk dir hs hnul'
        have hname : LegalName name := hw.legal hnode name (by simp)
        obtain ⟨left, -, hrest⟩ := follow_append_of_ok (hf hl)
        refine locate_eq_ok.2 ⟨hnul', ?_, ?_⟩
        · rintro rfl
          have hnone : splitLast "" = none := by decide
          rw [hnone] at hs
          cases hs
        · rw [hstart, hrest]
          have hstands : Stands disk.root (dir ++ [name]) :=
            .inr (Node.kindAt_eq_file.2 ⟨content, hnode⟩)
          have hlast : follow disk.root left dir ([name].map String.toList) = .ok (dir ++ [name]) :=
            follow_names (by simpa using hname) hstands
          exact hlast

/-- A path that leads somewhere leads through an entry of the directory that its `parent` leads
to. -/
theorem exists_parent_of_locate {parent name : String} (hs : splitLast path = some (parent, name))
    (h : disk.locate path = .ok place) :
    ∃ mid node, disk.locate parent = .ok mid ∧ disk.root.get? (mid ++ [name]) = some node := by
  obtain ⟨hnul, -, hf⟩ := locate_eq_ok.1 h
  obtain ⟨front, hstart, -⟩ := locate_parent disk place hs hnul
  rw [hstart] at hf
  obtain ⟨left, mid, -, hmid, hlast⟩ := exists_mid_of_follow hf
  obtain ⟨front', hstart', -, hparent⟩ := locate_parent disk mid hs hnul
  obtain rfl : front = front' := (List.append_inj' (hstart.symm.trans hstart') rfl).1
  obtain ⟨left, next, more, hl, -⟩ := follow_cons_ok.1 hlast
  obtain ⟨hidle, hup⟩ := not_idle_of_splitLast hs
  cases hl with
  | idle hd hp => exact absurd hp hidle
  | up hd hp => exact absurd hp hup
  | entry hd hp hk =>
    rw [String.ofList_toList] at hk
    obtain ⟨node, hnode⟩ := Stands.exists_node hk
    exact ⟨mid, node, hparent hmid hd, hnode⟩
  | link hd hp hk ht =>
    rw [String.ofList_toList] at hk
    exact ⟨mid, _, hparent hmid hd, Node.kindAt_eq_link.1 hk⟩

/-- The `place` of a path that splits is an entry of the directory where its `parent` leads. -/
theorem place_splitLast_eq_ok {parent name : String}
    (h : splitLast path = some (parent, name)) :
    disk.place path = .ok place ↔ '\x00' ∉ path.toList ∧
      ∃ here, disk.locate parent = .ok here ∧ place = here ++ [name] := by
  unfold Disk.place
  by_cases hnul : '\x00' ∈ path.toList
  · simp [hnul]
  · rw [if_neg (by simpa using hnul), h]
    cases hl : disk.locate parent with
    | error e => simp [hl]
    | ok here => simp [hl, hnul, eq_comm]

/-- The `place` of a path that does not split is where it leads. -/
theorem place_whole_eq_ok (h : splitLast path = none) :
    disk.place path = .ok place ↔ '\x00' ∉ path.toList ∧ disk.locate path = .ok place := by
  unfold Disk.place
  by_cases hnul : '\x00' ∈ path.toList
  · simp [hnul]
  · rw [if_neg (by simpa using hnul), h]
    simp [hnul]

/-- **A path that leads somewhere has an `entry`**, though that may be a link. -/
theorem exists_entry_of_locate (h : disk.locate path = .ok place) :
    ∃ node, disk.entry path = .ok node := by
  obtain ⟨hnul, -, -⟩ := locate_eq_ok.1 h
  cases hs : splitLast path with
  | none =>
    obtain ⟨node, hnode⟩ := Stands.exists_node (stands_of_locate h)
    exact ⟨node, entry_eq_ok.2 ⟨place, (place_whole_eq_ok hs).2 ⟨hnul, h⟩, hnode⟩⟩
  | some ends =>
    obtain ⟨parent, name⟩ := ends
    obtain ⟨mid, node, hparent, hnode⟩ := exists_parent_of_locate hs h
    have hplace := (place_splitLast_eq_ok hs).2 ⟨hnul, mid, hparent, rfl⟩
    exact ⟨node, entry_eq_ok.2 ⟨mid ++ [name], hplace, hnode⟩⟩

/-- The `entry` at the path of a directory is no file. -/
theorem exists_entry_of_dir (hw : disk.root.WellFormed) (h : disk.locate path = .ok place)
    (hd : disk.root.kindAt place = some .dir) :
    ∃ node, disk.entry path = .ok node ∧ node.isFile = false := by
  obtain ⟨node, hentry⟩ := exists_entry_of_locate h
  refine ⟨node, hentry, ?_⟩
  cases node with
  | dir inside => rfl
  | link target => rfl
  | file content =>
    obtain ⟨here, hl, hfile⟩ := locate_of_entry hw hentry
    obtain rfl : place = here := Except.ok.inj (h.symm.trans hl)
    rw [Node.kindAt_eq_file.2 ⟨content, hfile⟩] at hd
    cases hd

end Disk

end FlowMigration
