/-! # JSON values

A value of a JSON text. The members of an object stand in increasing order of their keys, each key
once; `Json.insertMember` keeps them so.

* `Json.Canonical`: every object of a value is ordered.
* `Dict`: a map with text keys, in the same order.
-/

namespace FlowMigration

/-- A number: an integer of 64 bits, or the bits of a finite double. -/
inductive JsonNumber where
  | natural (value : Nat)
  /-- The integer below zero with this `magnitude`. -/
  | negative (magnitude : Nat)
  | double (bits : UInt64)
deriving DecidableEq, Repr

inductive Json where
  | null
  | bool (value : Bool)
  | number (value : JsonNumber)
  | string (value : String)
  | array (items : List Json)
  | object (members : List (String × Json))
deriving Repr

instance : Inhabited Json := ⟨.null⟩

/-! ## Ordered members -/

/-- Puts `value` under `key`, in the place of what had that key. -/
def insertMember {α : Type} (key : String) (value : α) : List (String × α) → List (String × α)
  | [] => [(key, value)]
  | (k, v) :: rest =>
    if key < k then (key, value) :: (k, v) :: rest
    else if key = k then (key, value) :: rest
    else (k, v) :: insertMember key value rest

/-- The value of `key`. -/
def findMember? {α : Type} (key : String) : List (String × α) → Option α
  | [] => none
  | (k, v) :: rest => if k = key then some v else findMember? key rest

/-- The keys of `members` increase. -/
def Ascending {α : Type} (members : List (String × α)) : Prop :=
  members.Pairwise fun a b => a.1 < b.1

theorem mem_insertMember {α : Type} {key : String} {value : α} {members : List (String × α)}
    {m : String × α} (h : m ∈ insertMember key value members) : m = (key, value) ∨ m ∈ members := by
  induction members with
  | nil => simpa [insertMember] using h
  | cons head rest ih =>
    obtain ⟨k, v⟩ := head
    unfold insertMember at h
    split at h
    · simpa using h
    · split at h
      · rcases List.mem_cons.1 h with h | h
        · exact .inl h
        · exact .inr (List.mem_cons_of_mem _ h)
      · rcases List.mem_cons.1 h with h | h
        · exact .inr (h ▸ List.mem_cons_self)
        · exact (ih h).imp_right (List.mem_cons_of_mem _)

theorem Ascending.insertMember {α : Type} {members : List (String × α)} (h : Ascending members)
    (key : String) (value : α) : Ascending (insertMember key value members) := by
  induction members with
  | nil => simp [FlowMigration.insertMember, Ascending]
  | cons head rest ih =>
    obtain ⟨k, v⟩ := head
    have hrest : Ascending rest := (List.pairwise_cons.1 h).2
    have hhead := (List.pairwise_cons.1 h).1
    unfold FlowMigration.insertMember
    split
    · next hlt =>
      refine List.pairwise_cons.2 ⟨fun m hm => ?_, h⟩
      rcases List.mem_cons.1 hm with rfl | hm
      · exact hlt
      · exact String.lt_trans hlt (hhead m hm)
    · next hnlt =>
      split
      · next heq =>
        subst heq
        exact List.pairwise_cons.2 ⟨hhead, hrest⟩
      · next hne =>
        refine List.pairwise_cons.2 ⟨fun m hm => ?_, ih hrest⟩
        rcases mem_insertMember hm with rfl | hm
        · exact Std.lt_of_le_of_ne (Std.not_lt.1 hnlt) (Ne.symm hne)
        · exact hhead m hm

namespace Json

mutual

/-- Every object of the value is ordered, that is, its members are `Ascending`. -/
def Canonical : Json → Prop
  | .array items => CanonicalItems items
  | .object members => Ascending members ∧ CanonicalMembers members
  | _ => True

def CanonicalItems : List Json → Prop
  | [] => True
  | item :: rest => item.Canonical ∧ CanonicalItems rest

def CanonicalMembers : List (String × Json) → Prop
  | [] => True
  | m :: rest => CanonicalMember m ∧ CanonicalMembers rest

def CanonicalMember : String × Json → Prop
  | (_, value) => value.Canonical

end

/-- The object of `members`, of which the last one with a key counts. -/
def ofMembers (members : List (String × Json)) : Json :=
  .object (members.foldl (fun done m => insertMember m.1 m.2 done) [])

/-- The member `key` of an object. -/
def member? (key : String) : Json → Option Json
  | .object members => findMember? key members
  | _ => none

end Json

/-! ## Maps -/

/-- A map from text keys: its `entries`, in the order of their keys. -/
structure Dict (α : Type) where
  entries : List (String × α) := []
  ascending : Ascending entries := by exact List.Pairwise.nil

namespace Dict

variable {α : Type}

instance : Inhabited (Dict α) := ⟨{}⟩

instance [DecidableEq α] : DecidableEq (Dict α) := fun a b =>
  if h : a.entries = b.entries then isTrue (by cases a; cases b; congr)
  else isFalse fun e => h (e ▸ rfl)

instance [Repr α] : Repr (Dict α) := ⟨fun d => reprPrec d.entries⟩

def empty : Dict α := {}

def get? (dict : Dict α) (key : String) : Option α := findMember? key dict.entries

def contains (dict : Dict α) (key : String) : Bool := (dict.get? key).isSome

def insert (dict : Dict α) (key : String) (value : α) : Dict α :=
  ⟨insertMember key value dict.entries, dict.ascending.insertMember key value⟩

def filter (dict : Dict α) (keep : String → Bool) : Dict α :=
  ⟨dict.entries.filter fun e => keep e.1, dict.ascending.filter _⟩

def keys (dict : Dict α) : List String := dict.entries.map (·.1)

def size (dict : Dict α) : Nat := dict.entries.length

def isEmpty (dict : Dict α) : Bool := dict.entries.isEmpty

/-- The map of `entries`, of which the last one with a key counts. -/
def ofList (entries : List (String × α)) : Dict α :=
  entries.foldl (fun dict e => dict.insert e.1 e.2) {}

/-- The entries of both maps; on a common key `over` counts. -/
def extend (base upper : Dict α) : Dict α :=
  upper.entries.foldl (fun dict e => dict.insert e.1 e.2) base

end Dict

/-- A set of texts, kept in their order as the keys of a `Dict`. -/
abbrev TextSet := Dict Unit

namespace TextSet

def insert (set : TextSet) (text : String) : TextSet := Dict.insert set text ()

def toList (set : TextSet) : List String := Dict.keys set

def ofList (texts : List String) : TextSet := texts.foldl insert {}

end TextSet

end FlowMigration
