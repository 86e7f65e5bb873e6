import FlowMigration.Disk
import FlowMigration.Proofs.Path.Pieces

/-!
# Trees of files

What stands at a place of a tree (`Node.get?`), and what is left of it after a change.

* `LegalName`, `Node.WellFormed`: the names that a file system allows, each once in its directory.
* `Node.Throughout`: a property of every directory of a tree, and of every tree in it
  (`Throughout.get?`).
* `get?_put_self`, `get?_put_of_ne`: a change at a place is seen there and nowhere beside it.
* `put_put`, `erase_put`: of two changes at a place the later one counts, and what was put in and
  taken away again leaves no trace.
-/

namespace FlowMigration

/-- A name that a file system allows: an `IsName` without a null character, short enough. -/
structure LegalName (name : String) : Prop extends Path.IsName name where
  no_nul : '\x00' ∉ name.toList
  short : name.utf8ByteSize ≤ Disk.maxNameBytes

/-- The `entries` of a directory: their names are legal and increase. -/
structure LegalEntries (entries : List (String × Node)) : Prop where
  ascending : entries.Pairwise fun a b => a.1 < b.1
  legal : ∀ e ∈ entries, LegalName e.1

/-- No name in `entries` holds a backslash. -/
def NoBackslash (entries : List (String × Node)) : Prop := ∀ e ∈ entries, '\\' ∉ e.1.toList

instance (name : String) : Decidable (LegalName name) :=
  decidable_of_iff (Path.IsName name ∧ '\x00' ∉ name.toList ∧
      name.utf8ByteSize ≤ Disk.maxNameBytes)
    ⟨fun ⟨h₁, h₂, h₃⟩ => ⟨h₁, h₂, h₃⟩, fun ⟨h₁, h₂, h₃⟩ => ⟨h₁, h₂, h₃⟩⟩

instance : DecidablePred LegalEntries := fun entries =>
  decidable_of_iff (entries.Pairwise (fun a b => a.1 < b.1) ∧ ∀ e ∈ entries, LegalName e.1)
    ⟨fun ⟨h₁, h₂⟩ => ⟨h₁, h₂⟩, fun ⟨h₁, h₂⟩ => ⟨h₁, h₂⟩⟩

instance : DecidablePred NoBackslash := fun entries =>
  inferInstanceAs (Decidable (∀ e ∈ entries, '\\' ∉ e.1.toList))

/-! ## Entries of a directory -/

namespace Entries

variable {name other : String} {node x y : Node} {entries : List (String × Node)}

theorem mem_of_get? (h : get? name entries = some node) : (name, node) ∈ entries := by
  induction entries with
  | nil => simp [get?] at h
  | cons e rest ih =>
    obtain ⟨n, old⟩ := e
    unfold get? at h
    split at h
    · next hn => simp_all
    · exact List.mem_cons_of_mem _ (ih h)

theorem get?_of_mem (hasc : entries.Pairwise fun a b => a.1 < b.1) (h : (name, node) ∈ entries) :
    get? name entries = some node := by
  induction entries with
  | nil => simp at h
  | cons e rest ih =>
    obtain ⟨n, old⟩ := e
    obtain ⟨hhead, hrest⟩ := List.pairwise_cons.1 hasc
    rcases List.mem_cons.1 h with h | h
    · obtain ⟨rfl, rfl⟩ := Prod.mk.inj h
      simp [get?]
    · have hne : n ≠ name := by
        rintro rfl
        exact String.lt_irrefl n (hhead (n, node) h)
      simp [get?, hne, ih hrest h]

theorem get?_insert_self : get? name (insert name node entries) = some node := by
  induction entries with
  | nil => simp [insert, get?]
  | cons e rest ih =>
    obtain ⟨n, old⟩ := e
    unfold insert
    split
    · simp [get?]
    · split
      · simp [get?]
      · next hne => simp [get?, Ne.symm hne, ih]

theorem get?_insert_of_ne (h : other ≠ name) :
    get? other (insert name node entries) = get? other entries := by
  induction entries with
  | nil => simp [insert, get?, Ne.symm h]
  | cons e rest ih =>
    obtain ⟨n, old⟩ := e
    unfold insert
    split
    · simp [get?, Ne.symm h]
    · split
      · next heq => subst heq; simp [get?, Ne.symm h]
      · by_cases hn : n = other
        · simp [get?, hn]
        · simp [get?, hn, ih]

theorem mem_insert {e : String × Node} (h : e ∈ insert name node entries) :
    e = (name, node) ∨ e ∈ entries := by
  induction entries with
  | nil => simpa [insert] using h
  | cons head rest ih =>
    obtain ⟨n, old⟩ := head
    unfold insert at h
    split at h
    · simpa using h
    · split at h
      · rcases List.mem_cons.1 h with h | h
        · exact .inl h
        · exact .inr (List.mem_cons_of_mem _ h)
      · rcases List.mem_cons.1 h with h | h
        · exact .inr (h ▸ List.mem_cons_self)
        · exact (ih h).imp_right (List.mem_cons_of_mem _)

theorem ascending_insert (h : entries.Pairwise fun a b => a.1 < b.1) :
    (insert name node entries).Pairwise fun a b => a.1 < b.1 := by
  induction entries with
  | nil => simp [insert]
  | cons head rest ih =>
    obtain ⟨n, old⟩ := head
    obtain ⟨hhead, hrest⟩ := List.pairwise_cons.1 h
    unfold insert
    split
    · next hlt =>
      refine List.pairwise_cons.2 ⟨fun e he => ?_, h⟩
      rcases List.mem_cons.1 he with rfl | he
      · exact hlt
      · exact String.lt_trans hlt (hhead e he)
    · next hnlt =>
      split
      · next heq =>
        subst heq
        exact List.pairwise_cons.2 ⟨hhead, hrest⟩
      · next hne =>
        refine List.pairwise_cons.2 ⟨fun e he => ?_, ih hrest⟩
        rcases mem_insert he with rfl | he
        · exact Std.lt_of_le_of_ne (Std.not_lt.1 hnlt) (Ne.symm hne)
        · exact hhead e he

theorem insert_insert : insert name x (insert name y entries) = insert name x entries := by
  induction entries with
  | nil => simp [insert]
  | cons head rest ih =>
    obtain ⟨n, old⟩ := head
    by_cases hlt : name < n
    · simp [insert, hlt]
    · by_cases heq : name = n
      · subst heq; simp [insert]
      · simp [insert, hlt, heq, ih]

theorem insert_get? (hasc : entries.Pairwise fun a b => a.1 < b.1)
    (h : get? name entries = some node) : insert name node entries = entries := by
  induction entries with
  | nil => simp [get?] at h
  | cons head rest ih =>
    obtain ⟨n, old⟩ := head
    obtain ⟨hhead, hrest⟩ := List.pairwise_cons.1 hasc
    by_cases hn : n = name
    · subst hn
      have hold : old = node := by simpa [get?] using h
      simp [insert, hold]
    · have hin : get? name rest = some node := by simpa [get?, hn] using h
      have hlt : ¬name < n := String.lt_asymm (hhead _ (mem_of_get? hin))
      simp [insert, hlt, Ne.symm hn, ih hrest hin]

theorem get?_erase_self : get? name (erase name entries) = none := by
  induction entries with
  | nil => rfl
  | cons head rest ih =>
    obtain ⟨n, old⟩ := head
    by_cases hn : n = name
    · simpa [erase, hn] using ih
    · simpa [erase, get?, hn] using ih

theorem get?_erase_of_ne (h : other ≠ name) :
    get? other (erase name entries) = get? other entries := by
  induction entries with
  | nil => rfl
  | cons head rest ih =>
    obtain ⟨n, old⟩ := head
    by_cases hn : n = name
    · have ho : n ≠ other := fun he => h (he.symm.trans hn)
      rw [get?, if_neg ho]
      simpa [erase, hn] using ih
    · have hkeep : erase name ((n, old) :: rest) = (n, old) :: erase name rest := by
        simp [erase, hn]
      rw [hkeep, get?, get?, ih]

theorem erase_of_get?_none (h : get? name entries = none) : erase name entries = entries := by
  induction entries with
  | nil => rfl
  | cons head rest ih =>
    obtain ⟨n, old⟩ := head
    have hn : n ≠ name := by rintro rfl; simp [get?] at h
    have hrest := ih (by simpa [get?, hn] using h)
    rw [erase, List.filter_cons_of_pos (by simpa using hn)]
    exact congrArg _ hrest

theorem erase_insert (entries : List (String × Node)) (name : String) (node : Node) :
    erase name (insert name node entries) = erase name entries := by
  induction entries with
  | nil => simp [insert, erase]
  | cons head rest ih =>
    obtain ⟨n, old⟩ := head
    unfold insert
    split
    · simp [erase]
    · split
      · next he => simp [erase, he]
      · next hne => simpa [erase, Ne.symm hne] using ih

end Entries

namespace Node

/-! ## Places -/

variable {node new : Node} {name : String} {entries : List (String × Node)}

@[simp] theorem get?_nil (node : Node) : node.get? [] = some node := by simp [get?]

@[simp] theorem get?_dir_cons (entries : List (String × Node)) (name : String)
    (rest : List String) :
    (Node.dir entries).get? (name :: rest) = (Entries.get? name entries).bind (·.get? rest) := by
  rw [get?]
  cases Entries.get? name entries <;> rfl

theorem get?_cons_of_not_dir (h : node.isDir = false) (name : String) (rest : List String) :
    node.get? (name :: rest) = none := by
  cases node with
  | dir entries => simp [isDir] at h
  | file content => simp [get?]
  | link target => simp [get?]

theorem get?_append (node : Node) (front rest : List String) :
    node.get? (front ++ rest) = (node.get? front).bind (·.get? rest) := by
  induction front generalizing node with
  | nil => simp
  | cons name front ih =>
    cases node with
    | dir entries =>
      simp only [List.cons_append, get?_dir_cons, Option.bind_assoc]
      congr 1
      funext child
      exact ih child
    | file content => simp [get?]
    | link target => simp [get?]

/-- The last step to a place is an entry of a directory, the one called `name`. -/
theorem get?_concat (node : Node) (place : List String) (name : String) :
    node.get? (place ++ [name]) =
      match node.get? place with
      | some (.dir entries) => Entries.get? name entries
      | _ => none := by
  rw [get?_append]
  cases h : node.get? place with
  | none => rfl
  | some n =>
    cases n with
    | dir entries => simp
    | file content => simp [get?]
    | link target => simp [get?]

theorem exists_dir_of_get? {place rest : List String} (hrest : rest ≠ [])
    (h : node.get? (place ++ rest) = some new) : ∃ entries, node.get? place = some (.dir entries) := by
  rw [get?_append] at h
  obtain ⟨n, hn, h⟩ := Option.bind_eq_some_iff.1 h
  cases rest with
  | nil => exact absurd rfl hrest
  | cons name rest =>
    cases n with
    | dir entries => exact ⟨entries, hn⟩
    | file content => simp [get?] at h
    | link target => simp [get?] at h

/-! ## Changes -/

@[simp] theorem put_nil (new node : Node) : put new node [] = new := by simp [put]

@[simp] theorem put_dir_cons (new : Node) (entries : List (String × Node)) (name : String)
    (rest : List String) :
    put new (.dir entries) (name :: rest) =
      .dir (Entries.insert name (put new ((Entries.get? name entries).getD (.dir [])) rest)
        entries) := by
  rw [put]

theorem get?_put_self {place : List String}
    (h : node.get? place = some (.dir entries)) (new : Node) (name : String) :
    (put new node (place ++ [name])).get? (place ++ [name]) = some new := by
  induction place generalizing node with
  | nil =>
    obtain rfl : node = .dir entries := by simpa using h
    simp [Entries.get?_insert_self]
  | cons n place ih =>
    cases node with
    | dir es =>
      obtain ⟨child, hc, hd⟩ := Option.bind_eq_some_iff.1 ((get?_dir_cons es n place) ▸ h)
      simp [Entries.get?_insert_self, hc, ih hd]
    | file content => simp [get?] at h
    | link target => simp [get?] at h

/-- What `put` leaves alone: every place `other` that is neither above nor below `place`. -/
theorem get?_put_of_ne {place other : List String} (h₁ : ¬place <+: other) (h₂ : ¬other <+: place) :
    (put new node place).get? other = node.get? other := by
  induction place generalizing node other with
  | nil => exact absurd List.nil_prefix h₁
  | cons n place ih =>
    cases other with
    | nil => exact absurd List.nil_prefix h₂
    | cons m other =>
      cases node with
      | file content => simp [put]
      | link target => simp [put]
      | dir es =>
        simp only [put_dir_cons, get?_dir_cons]
        by_cases hmn : m = n
        · subst hmn
          have hne : ¬place <+: other := fun h => h₁ (List.cons_prefix_cons.2 ⟨rfl, h⟩)
          have hne' : ¬other <+: place := fun h => h₂ (List.cons_prefix_cons.2 ⟨rfl, h⟩)
          rw [Entries.get?_insert_self, Option.bind_some, ih hne hne']
          cases hg : Entries.get? m es with
          | some child => rfl
          | none =>
            cases other with
            | nil => exact absurd List.nil_prefix hne'
            | cons k other => simp [Entries.get?]
        · rw [Entries.get?_insert_of_ne hmn]

/-- What `put` changes is within the node `sub` that stands above it. -/
theorem get?_put_above {place : List String} {sub : Node} (h : node.get? place = some sub)
    (new : Node) (rest : List String) :
    (put new node (place ++ rest)).get? place = some (put new sub rest) := by
  induction place generalizing node with
  | nil =>
    obtain rfl : node = sub := by simpa using h
    simp
  | cons n place ih =>
    cases node with
    | dir es =>
      obtain ⟨child, hc, hd⟩ := Option.bind_eq_some_iff.1 ((get?_dir_cons es n place) ▸ h)
      simp [Entries.get?_insert_self, hc, ih hd]
    | file content => simp [get?] at h
    | link target => simp [get?] at h

/-- The directories above `place ++ rest` stay directories when `new` is `put` there. -/
theorem exists_dir_put {place rest : List String} (hrest : rest ≠ [])
    (h : node.get? place = some (.dir entries)) (new : Node) :
    ∃ entries, (put new node (place ++ rest)).get? place = some (.dir entries) := by
  obtain ⟨name, more, rfl⟩ := List.exists_cons_of_ne_nil hrest
  exact ⟨_, by rw [get?_put_above h, put_dir_cons]⟩

theorem put_put (x y node : Node) (place : List String) :
    put x (put y node place) place = put x node place := by
  induction place generalizing node with
  | nil => simp
  | cons n place ih =>
    cases node with
    | dir es => simp [Entries.get?_insert_self, Entries.insert_insert, ih]
    | file content => simp [put]
    | link target => simp [put]

theorem get?_erase_above {place rest : List String} (hrest : rest ≠ []) {sub : Node}
    (h : node.get? place = some sub) :
    (erase node (place ++ rest)).get? place = some (erase sub rest) := by
  induction place generalizing node with
  | nil =>
    obtain rfl : node = sub := by simpa using h
    simp
  | cons n place ih =>
    cases node with
    | dir es =>
      obtain ⟨child, hc, hd⟩ := Option.bind_eq_some_iff.1 ((get?_dir_cons es n place) ▸ h)
      obtain ⟨m, more, hmore⟩ : ∃ m more, place ++ rest = m :: more :=
        List.exists_cons_of_ne_nil (by simp [hrest])
      have hchild := ih hd
      rw [hmore] at hchild
      rw [List.cons_append, hmore, erase, hc]
      simp [Entries.get?_insert_self, hchild]
    | file content => simp [get?] at h
    | link target => simp [get?] at h

/-! ## Properties of all directories -/

/-- Every directory of a tree has the property `P`. -/
inductive Throughout (P : List (String × Node) → Prop) : Node → Prop
  | file (content : ByteArray) : Throughout P (.file content)
  | link (target : String) : Throughout P (.link target)
  | dir {entries : List (String × Node)} (own : P entries)
      (inside : ∀ e ∈ entries, Throughout P e.2) : Throughout P (.dir entries)

/-- A tree that a file system allows: `LegalEntries` in every directory. -/
abbrev WellFormed (node : Node) : Prop := node.Throughout LegalEntries

variable {P : List (String × Node) → Prop}

theorem Throughout.own (h : (Node.dir entries).Throughout P) : P entries := by
  cases h with
  | dir own inside => exact own

theorem Throughout.inside (h : (Node.dir entries).Throughout P) :
    ∀ e ∈ entries, e.2.Throughout P := by
  cases h with
  | dir own inside => exact inside

theorem Throughout.imp {Q : List (String × Node) → Prop} (hpq : ∀ entries, P entries → Q entries)
    (h : node.Throughout P) : node.Throughout Q := by
  induction h with
  | file content => exact .file content
  | link target => exact .link target
  | dir own _ ih => exact .dir (hpq _ own) ih

section
variable (P) [DecidablePred P]

mutual

/-- Whether every directory of a tree has the property `P`. -/
def checkThroughout : Node → Bool
  | .file _ => true
  | .link _ => true
  | .dir entries => decide (P entries) && checkInside entries

def checkInside : List (String × Node) → Bool
  | [] => true
  | entry :: rest => checkEntry entry && checkInside rest

def checkEntry : String × Node → Bool
  | (_, node) => checkThroughout node

end

mutual

theorem checkThroughout_iff : (node : Node) → (checkThroughout P node = true ↔ node.Throughout P)
  | .file content => by simp [checkThroughout, Throughout.file]
  | .link target => by simp [checkThroughout, Throughout.link]
  | .dir entries => by
    rw [checkThroughout, Bool.and_eq_true, decide_eq_true_iff, checkInside_iff entries]
    exact ⟨fun ⟨own, inside⟩ => .dir own inside, fun h => ⟨h.own, h.inside⟩⟩

theorem checkInside_iff : (entries : List (String × Node)) →
    (checkInside P entries = true ↔ ∀ e ∈ entries, e.2.Throughout P)
  | [] => by simp [checkInside]
  | entry :: rest => by
    rw [checkInside, Bool.and_eq_true, checkEntry_iff entry, checkInside_iff rest,
      List.forall_mem_cons]

theorem checkEntry_iff : (entry : String × Node) →
    (checkEntry P entry = true ↔ entry.2.Throughout P)
  | (_, node) => checkThroughout_iff node

end

instance (node : Node) : Decidable (node.Throughout P) :=
  decidable_of_iff _ (checkThroughout_iff P node)

end

/-- **What holds `Throughout` a tree** holds throughout every tree in it. -/
theorem Throughout.get? (h : node.Throughout P) {place : List String}
    (hp : node.get? place = some new) : new.Throughout P := by
  induction place generalizing node with
  | nil =>
    obtain rfl : node = new := by simpa using hp
    exact h
  | cons n place ih =>
    cases node with
    | dir es =>
      obtain ⟨child, hc, hd⟩ := Option.bind_eq_some_iff.1 ((get?_dir_cons es n place) ▸ hp)
      exact ih (h.inside _ (Entries.mem_of_get? hc)) hd
    | file content => simp [Node.get?] at hp
    | link target => simp [Node.get?] at hp

/-- Every step to a place of a tree is an entry of a directory with the property `P`. -/
theorem Throughout.step (h : node.Throughout P) {place : List String}
    (hp : node.get? place = some new) {name : String} (hname : name ∈ place) :
    ∃ entries child, P entries ∧ (name, child) ∈ entries := by
  obtain ⟨front, rest, rfl⟩ := List.append_of_mem hname
  obtain ⟨es, hes⟩ := exists_dir_of_get? (List.cons_ne_nil name rest) hp
  rw [get?_append, hes, Option.bind_some, get?_dir_cons] at hp
  obtain ⟨child, hc, -⟩ := Option.bind_eq_some_iff.1 hp
  exact ⟨es, child, (h.get? hes).own, Entries.mem_of_get? hc⟩

theorem Throughout.legal (h : node.WellFormed) {place : List String}
    (hp : node.get? place = some new) : ∀ name ∈ place, LegalName name := by
  intro name hname
  obtain ⟨es, child, hes, hmem⟩ := h.step hp hname
  exact hes.legal _ hmem

theorem Throughout.no_backslash (h : node.Throughout NoBackslash) {place : List String}
    (hp : node.get? place = some new) : ∀ name ∈ place, '\\' ∉ name.toList := by
  intro name hname
  obtain ⟨es, child, hes, hmem⟩ := h.step hp hname
  exact hes _ hmem

theorem Throughout.insert (h : (Node.dir entries).Throughout P) (hnew : new.Throughout P)
    (hown : P (Entries.insert name new entries)) :
    (put new (.dir entries) [name]).Throughout P := by
  rw [put_dir_cons, put]
  refine .dir hown fun e he => ?_
  rcases Entries.mem_insert he with rfl | he
  · exact hnew
  · exact h.inside e he

theorem Throughout.take (h : (Node.dir entries).Throughout P) (name : String)
    (hown : P (Entries.erase name entries)) : (Node.erase (.dir entries) [name]).Throughout P := by
  rw [Node.erase]
  exact .dir hown fun e he => h.inside e (List.mem_filter.1 he).1

theorem Throughout.put (h : node.WellFormed) (hnew : new.WellFormed) {place : List String}
    (hname : ∀ name ∈ place, LegalName name) : (Node.put new node place).WellFormed := by
  induction place generalizing node with
  | nil => simpa using hnew
  | cons n place ih =>
    cases node with
    | file content => simpa [Node.put] using h
    | link target => simpa [Node.put] using h
    | dir es =>
      have hchild : ((Entries.get? n es).getD (.dir [])).WellFormed := by
        cases hc : Entries.get? n es with
        | some child => exact h.inside _ (Entries.mem_of_get? hc)
        | none => exact .dir ⟨.nil, by simp⟩ (by simp)
      have hput := ih hchild fun m hm => hname m (List.mem_cons_of_mem _ hm)
      rw [put_dir_cons]
      refine .dir ⟨Entries.ascending_insert h.own.ascending, fun e he => ?_⟩ fun e he => ?_
      · rcases Entries.mem_insert he with rfl | he
        · exact hname n (by simp)
        · exact h.own.legal e he
      · rcases Entries.mem_insert he with rfl | he
        · exact hput
        · exact h.inside e he

theorem erase_of_none (h : node.WellFormed) {place : List String}
    (hnone : node.get? (place ++ [name]) = none) : erase node (place ++ [name]) = node := by
  induction place generalizing node with
  | nil =>
    cases node with
    | file content => simp [erase]
    | link target => simp [erase]
    | dir es =>
      have hes : Entries.get? name es = none := by simpa using hnone
      simp [erase, Entries.erase_of_get?_none hes]
  | cons n place ih =>
    obtain ⟨m, more, hmore⟩ : ∃ m more, place ++ [name] = m :: more :=
      List.exists_cons_of_ne_nil (by simp)
    cases node with
    | file content => simp [erase]
    | link target => simp [erase]
    | dir es =>
      rw [List.cons_append, hmore, erase]
      cases hc : Entries.get? n es with
      | none => rfl
      | some child =>
        have hchild := ih (h.inside _ (Entries.mem_of_get? hc))
          (by simpa [get?_dir_cons, hc] using hnone)
        rw [hmore] at hchild
        simp only [hchild, Entries.insert_get? h.own.ascending hc]

/-- **What was `put` in and taken away again** leaves no trace but that nothing is there. -/
theorem erase_put {place : List String} (hd : node.get? place = some (.dir entries)) (new : Node) :
    erase (put new node (place ++ [name])) (place ++ [name]) = erase node (place ++ [name]) := by
  induction place generalizing node with
  | nil =>
    obtain rfl : node = .dir entries := by simpa using hd
    simp [erase, Entries.erase_insert]
  | cons n place ih =>
    cases node with
    | file content => simp [Node.get?] at hd
    | link target => simp [Node.get?] at hd
    | dir es =>
      obtain ⟨child, hc, hd⟩ := Option.bind_eq_some_iff.1 ((get?_dir_cons es n place) ▸ hd)
      have hchild := ih hd
      obtain ⟨m, more, hmore⟩ : ∃ m more, place ++ [name] = m :: more :=
        List.exists_cons_of_ne_nil (by simp)
      rw [List.cons_append, put_dir_cons, hc, Option.getD_some]
      rw [hmore] at hchild ⊢
      rw [erase, Entries.get?_insert_self, erase, hc]
      simp only [hchild, Entries.insert_insert]

end Node

end FlowMigration
