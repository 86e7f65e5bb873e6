import FlowMigration.Json.Basic
import Mathlib.Data.List.Sort

/-!
# Ordered members

Members and maps by the keys that they hold.

* `Ascending.ext`, `Dict.ext_get?`: ordered members are known by the values of their keys.
* `findMember?_foldl`: members that are put in one by one.
* `Dict.get?_insert`, `Dict.get?_filter`, `Dict.get?_extend`: the values of changed maps.
-/

namespace FlowMigration

variable {α : Type} {key k : String} {value v : α} {members done : List (String × α)}

/-! ## Members -/

theorem findMember?_cons (k key : String) (value : α) (members : List (String × α)) :
    findMember? k ((key, value) :: members) =
      if key = k then some value else findMember? k members := rfl

theorem mem_of_findMember? (h : findMember? k members = some v) : (k, v) ∈ members := by
  induction members with
  | nil => cases h
  | cons m rest ih =>
    obtain ⟨key, value⟩ := m
    rw [findMember?_cons] at h
    split at h
    · next he =>
      obtain rfl := Option.some.inj h
      rw [← he]
      exact List.mem_cons_self
    · exact List.mem_cons_of_mem _ (ih h)

theorem findMember?_eq_none (h : ∀ m ∈ members, m.1 ≠ k) : findMember? k members = none := by
  cases hf : findMember? k members with
  | none => rfl
  | some v => exact absurd rfl (h _ (mem_of_findMember? hf))

theorem findMember?_of_mem (hnd : (members.map (·.1)).Nodup) (h : (k, v) ∈ members) :
    findMember? k members = some v := by
  induction members with
  | nil => cases h
  | cons m rest ih =>
    obtain ⟨key, value⟩ := m
    rw [List.map_cons, List.nodup_cons] at hnd
    rw [findMember?_cons]
    rcases List.mem_cons.1 h with h | h
    · obtain ⟨rfl, rfl⟩ := Prod.mk.inj h
      rw [if_pos rfl]
    · have hne : key ≠ k := by
        rintro rfl
        exact hnd.1 (List.mem_map.2 ⟨_, h, rfl⟩)
      rw [if_neg hne, ih hnd.2 h]

theorem findMember?_insertMember (k key : String) (value : α) (members : List (String × α)) :
    findMember? k (insertMember key value members) =
      if key = k then some value else findMember? k members := by
  induction members with
  | nil => rw [insertMember, findMember?_cons]
  | cons m rest ih =>
    obtain ⟨key', value'⟩ := m
    unfold insertMember
    split
    · rw [findMember?_cons]
    · split
      · next he =>
        rw [findMember?_cons, findMember?_cons, ← he]
        split <;> rfl
      · next hne =>
        rw [findMember?_cons, ih, findMember?_cons]
        by_cases he : key' = k
        · rw [if_pos he, if_neg (he ▸ hne), if_pos he]
        · rw [if_neg he, if_neg he]

theorem length_insertMember_of_none (h : findMember? key members = none) (value : α) :
    (insertMember key value members).length = members.length + 1 := by
  induction members with
  | nil => rfl
  | cons m rest ih =>
    obtain ⟨key', value'⟩ := m
    rw [findMember?_cons] at h
    split at h
    · cases h
    · next hne =>
      unfold insertMember
      rw [if_neg (Ne.symm hne)]
      split
      · rfl
      · exact congrArg (· + 1) (ih h)

theorem findMember?_map {β : Type} (f : α → β) (k : String) (members : List (String × α)) :
    findMember? k (members.map fun m => (m.1, f m.2)) = (findMember? k members).map f := by
  induction members with
  | nil => rfl
  | cons m rest ih =>
    rw [List.map_cons, findMember?_cons, ih, findMember?_cons]
    split <;> rfl

theorem findMember?_append (k : String) (front rest : List (String × α)) :
    findMember? k (front ++ rest) = (findMember? k front).or (findMember? k rest) := by
  induction front with
  | nil => rfl
  | cons m front ih =>
    rw [List.cons_append, findMember?_cons, ih, findMember?_cons]
    split <;> rfl

theorem findMember?_filter (keep : String → Bool) (k : String) (members : List (String × α)) :
    findMember? k (members.filter fun m => keep m.1) =
      if keep k then findMember? k members else none := by
  induction members with
  | nil => simp [findMember?]
  | cons m rest ih =>
    obtain ⟨key, value⟩ := m
    rw [List.filter_cons, findMember?_cons]
    by_cases he : key = k
    · subst he
      by_cases hk : keep key = true
      · rw [if_pos hk, findMember?_cons, if_pos rfl, if_pos hk, if_pos rfl]
      · rw [if_neg hk, ih, if_neg hk, if_neg hk]
    · rw [if_neg he]
      split
      · rw [findMember?_cons, if_neg he, ih]
      · exact ih

/-! ## Ordered members -/

theorem Ascending.nodup (h : Ascending members) : (members.map (·.1)).Nodup := by
  refine List.pairwise_map.2 (h.imp ?_)
  intro a b hlt he
  rw [he] at hlt
  exact String.lt_irrefl b.1 hlt

/-- **Members that are `Ascending`** are known by the values of their keys. -/
theorem Ascending.ext {members' : List (String × α)} (h : Ascending members)
    (h' : Ascending members') (hk : ∀ k, findMember? k members = findMember? k members') :
    members = members' := by
  have hirrefl : Std.Irrefl fun a b : String × α => a.1 < b.1 :=
    ⟨fun a => String.lt_irrefl a.1⟩
  have hantisymm : Std.Antisymm fun a b : String × α => a.1 < b.1 :=
    ⟨fun a b hab hba => absurd (String.lt_trans hab hba) (String.lt_irrefl a.1)⟩
  refine h.eq_of_mem_iff h' fun m => ⟨fun hm => ?_, fun hm => ?_⟩
  · exact mem_of_findMember? (hk m.1 ▸ findMember?_of_mem h.nodup hm)
  · exact mem_of_findMember? ((hk m.1).symm ▸ findMember?_of_mem h'.nodup hm)

theorem ascending_foldl (h : Ascending done) (members : List (String × α)) :
    Ascending (members.foldl (fun done m => insertMember m.1 m.2 done) done) := by
  induction members generalizing done with
  | nil => exact h
  | cons m rest ih => exact ih (h.insertMember m.1 m.2)

/-- **Members that are put in one by one**: they come before what was `done`. -/
theorem findMember?_foldl (hnd : (members.map (·.1)).Nodup) (k : String)
    (done : List (String × α)) :
    findMember? k (members.foldl (fun done m => insertMember m.1 m.2 done) done) =
      (findMember? k members).or (findMember? k done) := by
  induction members generalizing done with
  | nil => rfl
  | cons m rest ih =>
    rw [List.map_cons, List.nodup_cons] at hnd
    rw [List.foldl_cons, ih hnd.2, findMember?_insertMember, findMember?_cons]
    by_cases he : m.1 = k
    · have hnone : findMember? k rest = none := by
        refine findMember?_eq_none ?_
        rintro m' hm' rfl
        exact hnd.1 (he ▸ List.mem_map_of_mem hm')
      rw [if_pos he, if_pos he, hnone, Option.none_or, Option.some_or]
    · rw [if_neg he, if_neg he]

theorem mem_foldl_insertMember {m : String × α}
    (h : m ∈ members.foldl (fun done m => insertMember m.1 m.2 done) done) :
    m ∈ members ∨ m ∈ done := by
  induction members generalizing done with
  | nil => exact .inr h
  | cons m' rest ih =>
    rcases ih h with h | h
    · exact .inl (List.mem_cons_of_mem _ h)
    · rcases mem_insertMember h with rfl | h
      · exact .inl List.mem_cons_self
      · exact .inr h

theorem foldl_insertMember_eq (h : Ascending members) :
    members.foldl (fun done m => insertMember m.1 m.2 done) [] = members := by
  apply (ascending_foldl List.Pairwise.nil members).ext h
  intro k
  rw [findMember?_foldl h.nodup]
  exact Option.or_none

/-! ## Maps -/

namespace Dict

variable {a b : Dict α}

theorem ext_entries (h : a.entries = b.entries) : a = b := by
  cases a
  cases b
  congr

/-- **A map `a`** is known by the values of its keys. -/
theorem ext_get? (h : ∀ k, a.get? k = b.get? k) : a = b :=
  ext_entries (a.ascending.ext b.ascending h)

theorem get?_insert (dict : Dict α) (key : String) (value : α) (k : String) :
    (dict.insert key value).get? k = if key = k then some value else dict.get? k :=
  findMember?_insertMember k key value dict.entries

theorem size_insert_of_none {dict : Dict α} {key : String} (h : dict.get? key = none) (value : α) :
    (dict.insert key value).size = dict.size + 1 :=
  length_insertMember_of_none h value

theorem get?_filter (dict : Dict α) (keep : String → Bool) (k : String) :
    (dict.filter keep).get? k = if keep k then dict.get? k else none :=
  findMember?_filter keep k dict.entries

theorem entries_foldl_insert (entries : List (String × α)) (dict : Dict α) :
    (entries.foldl (fun dict e => dict.insert e.1 e.2) dict).entries =
      entries.foldl (fun done e => insertMember e.1 e.2 done) dict.entries := by
  induction entries generalizing dict with
  | nil => rfl
  | cons e rest ih => exact ih _

/-- Other keys keep their values in `dict`. -/
theorem get?_foldl_insert {entries : List (String × α)} {k : String} (h : k ∉ entries.map (·.1))
    (dict : Dict α) :
    (entries.foldl (fun dict e => dict.insert e.1 e.2) dict).get? k = dict.get? k := by
  induction entries generalizing dict with
  | nil => rfl
  | cons e rest ih =>
    obtain ⟨hne, hrest⟩ := not_or.1 (mt List.mem_cons.2 h)
    rw [List.foldl_cons, ih hrest, get?_insert, if_neg (Ne.symm hne)]

/-- Keys that are put in once have the values that were put in. -/
theorem get?_foldl_insert_of_mem {entries : List (String × α)} (hnd : (entries.map (·.1)).Nodup)
    {k : String} {v : α} (h : (k, v) ∈ entries) (dict : Dict α) :
    (entries.foldl (fun dict e => dict.insert e.1 e.2) dict).get? k = some v := by
  rw [get?, entries_foldl_insert, findMember?_foldl hnd, findMember?_of_mem hnd h, Option.some_or]

/-- **What is put in** does not depend on what `dict` and `dict'` had under its keys. -/
theorem foldl_insert_congr {entries : List (String × α)} {dict dict' : Dict α}
    (h : ∀ k, k ∉ entries.map (·.1) → dict.get? k = dict'.get? k) :
    entries.foldl (fun dict e => dict.insert e.1 e.2) dict =
      entries.foldl (fun dict e => dict.insert e.1 e.2) dict' := by
  induction entries generalizing dict dict' with
  | nil => exact ext_get? fun k => h k List.not_mem_nil
  | cons e rest ih =>
    apply ih
    intro k hk
    rw [get?_insert, get?_insert]
    split
    · rfl
    · next hne =>
      exact h k fun hmem => (List.mem_cons.1 hmem).elim (fun he => hne he.symm) hk

theorem get?_extend (base upper : Dict α) (k : String) :
    (base.extend upper).get? k = (upper.get? k).or (base.get? k) := by
  unfold get? extend
  rw [entries_foldl_insert, findMember?_foldl upper.ascending.nodup]

theorem entries_ofList {entries : List (String × α)} (h : Ascending entries) :
    (ofList entries).entries = entries := by
  exact (entries_foldl_insert entries {}).trans (foldl_insertMember_eq h)

theorem get?_ofList {entries : List (String × α)} (h : (entries.map (·.1)).Nodup) (k : String) :
    (ofList entries).get? k = findMember? k entries := by
  unfold get? ofList
  rw [entries_foldl_insert, findMember?_foldl h]
  exact Option.or_none

theorem mem_keys {dict : Dict α} {key : String} : key ∈ dict.keys ↔ (dict.get? key).isSome := by
  constructor
  · intro h
    obtain ⟨e, he, rfl⟩ := List.mem_map.1 h
    rw [get?, findMember?_of_mem dict.ascending.nodup he]
    rfl
  · intro h
    obtain ⟨value, hv⟩ := Option.isSome_iff_exists.1 h
    exact List.mem_map.2 ⟨_, mem_of_findMember? hv, rfl⟩

end Dict

end FlowMigration
