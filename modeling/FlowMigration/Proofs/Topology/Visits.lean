import FlowMigration.Proofs.Topology.Siblings

/-!
# Going through the folders

Whatever paths are inserted in whatever order, the folders stay a tree, and collecting the packages
goes through this tree folder by folder.

* `FolderArena.Leads`: the names on the way from a folder down to another one, said by the folders
  inside each folder and not by its index; in a tree it is what `find?` finds
  (`Coherent.leads_iff`), and every folder has its way from the root (`Coherent.exists_find?`).
* `Topology.Collects`: a run of collecting, without fuel, with the folders it visits. It has one
  outcome, which is what `collect` gives with enough fuel (`collects_iff`), and visits every folder
  once (`visits_root_perm`).
-/

namespace FlowMigration

namespace FolderArena

variable {arena : FolderArena}

/-! ## Ways -/

/-- The way from the folder `id` to the folder `last` through folders of these names, each inside
the one before. -/
inductive Leads (arena : FolderArena) : Nat → List String → Nat → Prop
  | here (id : Nat) : Leads arena id [] id
  | into {id next last : Nat} {names : List String} :
      next ∈ (arena.folder id).children → Leads arena next names last →
      Leads arena id ((arena.folder next).name :: names) last

namespace Coherent

/-- **The ways in a tree** (`Leads`) are those that the indices give. -/
theorem leads_iff (h : arena.Coherent) {id last : Nat} {names : List String} :
    arena.Leads id names last ↔ arena.find? id names = some last := by
  constructor
  · intro hway
    induction hway with
    | here id => rfl
    | into hnext _ ih =>
      exact Option.bind_eq_some_iff.2 ⟨_, h.inside?_eq_some.2 ⟨hnext, rfl⟩, ih⟩
  · intro hfind
    induction names generalizing id with
    | nil =>
      cases hfind
      exact .here _
    | cons name names ih =>
      obtain ⟨next, hnext, hrest⟩ := Option.bind_eq_some_iff.1 hfind
      obtain ⟨hmem, rfl⟩ := h.inside?_eq_some.1 hnext
      exact .into hmem (ih hrest)

theorem exists_find? (h : arena.Coherent) {id : Nat} (hid : id < arena.size) :
    ∃ names, arena.find? root names = some id := by
  -- by the number: the folder around a folder has a smaller one
  induction id using Nat.strongRecOn with
  | ind id ih =>
    rcases Nat.eq_zero_or_pos id with rfl | hpos
    · exact ⟨[], rfl⟩
    · obtain ⟨p, hp⟩ := h.reached id hpos hid
      have hlt := (h.above p id hp).1
      obtain ⟨front, hfront⟩ := ih p hlt (by omega)
      refine ⟨front ++ [(arena.folder id).name], ?_⟩
      rw [find?_append, hfront, Option.bind_some, find?, h.inside?_eq_some.2 ⟨hp, rfl⟩]
      rfl

theorem lt_size_of_mem_children (h : arena.Coherent) {p c : Nat}
    (hc : c ∈ (arena.folder p).children) : p < arena.size :=
  Nat.lt_trans (h.above p c hc).1 (h.above p c hc).2

/-- **A folder `c` stands once** in the list of the folder around it, and in no other list. -/
theorem count_children (h : arena.Coherent) {c : Nat} (hpos : 0 < c) (hc : c < arena.size) :
    ∃ p < arena.size, ∀ q, (arena.folder q).children.count c = if q = p then 1 else 0 := by
  obtain ⟨p, hp⟩ := h.reached c hpos hc
  refine ⟨p, h.lt_size_of_mem_children hp, fun q => ?_⟩
  by_cases hq : q = p
  · subst hq
    rw [if_pos rfl]
    exact List.count_eq_one_of_mem (.of_map _ (h.names q)) hp
  · rw [if_neg hq]
    exact List.count_eq_zero.2 fun hmem => hq (h.parent q p c hmem hp)

/-- Ways that part at `c` and `d` do not meet again. -/
theorem name_eq_of_find? (h : arena.Coherent) {p c d j : Nat} {names names' : List String}
    (hc : c ∈ (arena.folder p).children) (hd : d ∈ (arena.folder p).children)
    (hcj : arena.find? c names = some j) (hdj : arena.find? d names' = some j) :
    (arena.folder c).name = (arena.folder d).name := by
  obtain ⟨front, hfront⟩ := h.exists_find? (h.lt_size_of_mem_children hc)
  have hroot {b : Nat} {rest : List String} (hb : b ∈ (arena.folder p).children)
      (hbj : arena.find? b rest = some j) :
      arena.find? root (front ++ (arena.folder b).name :: rest) = some j := by
    rw [find?_append, hfront, Option.bind_some, find?, h.inside?_eq_some.2 ⟨hb, rfl⟩]
    exact hbj
  exact (List.cons.inj (List.append_cancel_left
    (h.find?_inj (hroot hc hcj) (hroot hd hdj)))).1

end Coherent

/-! ## After some insertions -/

/-- A path `segs` that is inserted leads to the folder it has marked, whatever is inserted after
it. -/
theorem find?_inserted (before : List (List String × Nat)) (segs : List String) (mark : Nat)
    (after : List (List String × Nat)) :
    (inserted (before ++ (segs, mark) :: after)).find? root segs =
      some ((inserted before).descend root segs).2 := by
  induction after using List.reverseRecOn with
  | nil =>
    have h := coherent_inserted before
    obtain ⟨hcoherent, -, hfound⟩ := descend_spec h h.pos segs
    rw [inserted_concat, insert_eq, find?_setMark (hcoherent.find?_lt hcoherent.pos hfound)]
    exact hfound
  | append_singleton after step ih =>
    rw [← List.cons_append, ← List.append_assoc, inserted_concat]
    exact find?_insert_of_find? (coherent_inserted _) ih

theorem descend_of_find? {id last : Nat} {segs : List String}
    (h : arena.find? id segs = some last) : arena.descend id segs = (arena, last) := by
  induction segs generalizing id with
  | nil =>
    cases h
    rfl
  | cons name rest ih =>
    obtain ⟨next, hnext, h⟩ := Option.bind_eq_some_iff.1 h
    rcases child_cases arena id name with ⟨c, hc, hchild⟩ | ⟨hnew, -⟩
    · obtain rfl : c = next := Option.some.inj (hc.symm.trans hnext)
      rw [descend, hchild]
      exact ih h
    · rw [hnew] at hnext
      cases hnext

/-- **An insertion that finds its folder `id`** changes the mark of this folder and nothing else. -/
theorem folder_insert_of_find? (h : arena.Coherent) {segs : List String} {id : Nat}
    (hfind : arena.find? root segs = some id) (mark j : Nat) :
    (arena.insert segs mark).folder j =
      if j = id then { arena.folder id with mark := some mark } else arena.folder j := by
  rw [insert_eq, descend_of_find? hfind]
  exact folder_setMark (h.find?_lt h.pos hfind) mark j

theorem size_insert_of_find? {segs : List String} {id : Nat}
    (hfind : arena.find? root segs = some id) (mark : Nat) :
    (arena.insert segs mark).size = arena.size := by
  rw [insert_eq, descend_of_find? hfind]
  simp [setMark, size]

theorem mark_insert (h : arena.Coherent) {segs : List String} {mark id k : Nat}
    (hk : ((arena.insert segs mark).folder id).mark = some k) :
    k = mark ∨ (arena.folder id).mark = some k := by
  obtain ⟨hcoherent, hgrows, hfound⟩ := descend_spec h h.pos segs
  rw [insert_eq, folder_setMark (hcoherent.find?_lt hcoherent.pos hfound)] at hk
  split at hk
  · exact .inl (Option.some.inj hk).symm
  · exact .inr ((hgrows.marks id).symm.trans hk)

theorem mark_inserted {steps : List (List String × Nat)} {id k : Nat}
    (hk : ((inserted steps).folder id).mark = some k) : k ∈ steps.map (·.2) := by
  induction steps using List.reverseRecOn with
  | nil => simp [inserted, folder_empty] at hk
  | append_singleton steps step ih =>
    rw [inserted_concat] at hk
    rw [List.map_append, List.mem_append]
    rcases mark_insert (coherent_inserted steps) hk with rfl | hold
    · exact .inr (List.mem_singleton.2 rfl)
    · exact .inl (ih hold)

end FolderArena

namespace Topology

variable {arena : FolderArena}

/-! ## Runs -/

/-- The entries of a folder: those `inside`, and its `own` one last. -/
def withOwn (own : Option ManifestRecord) (inside : List TopologyEntry) : List TopologyEntry :=
  match own with
  | some record => inside ++ [⟨record, [], inside.map (·.parts)⟩]
  | none => inside

/-- Collecting from the folder `id` comes to an end with `entries`. The folders `visited` are gone
through on the way, in this order, and all that are looked up are in the arena. A mark without a
record counts as none. -/
inductive Collects (arena : FolderArena) (records : List ManifestRecord) :
    Nat → List Nat → List TopologyEntry → Prop
  | folder {id : Nat} {visited : Nat → List Nat} {entries : Nat → List TopologyEntry} :
      id < arena.size →
      (∀ child ∈ (arena.folder id).children,
        Collects arena records child (visited child) (entries child)) →
      Collects arena records id (id :: (arena.folder id).children.flatMap visited)
        (withOwn (recordOf? arena records id) ((arena.folder id).children.flatMap fun child =>
          (entries child).map (·.within (arena.folder child).name)))

/-- The folders from the folder `id` down, each before those inside it. -/
def visits (arena : FolderArena) : Nat → Nat → List Nat
  | 0, _ => []
  | fuel + 1, id => id :: (arena.folder id).children.flatMap (visits arena fuel)

/-- **Collecting ends** (`Collects`), in one way only. -/
theorem collects_iff (h : arena.Coherent) (records : List ManifestRecord) {fuel id : Nat}
    (hid : id < arena.size) (hfuel : arena.size ≤ fuel + id) {visited : List Nat}
    {entries : List TopologyEntry} :
    Collects arena records id visited entries ↔
      visited = visits arena fuel id ∧ entries = collect arena records fuel id := by
  constructor
  · intro hrun
    induction hrun generalizing fuel with
    | @folder id visited entries _ _ ih =>
      cases fuel with
      | zero => omega
      | succ fuel =>
        have hinside : ∀ c ∈ (arena.folder id).children,
            visited c = visits arena fuel c ∧ entries c = collect arena records fuel c := by
          intro c hc
          have hb := h.above id c hc
          exact ih c hc hb.2 (by omega)
        refine ⟨congrArg (id :: ·) (List.flatMap_congr fun c hc => (hinside c hc).1), ?_⟩
        refine congrArg (withOwn _) (List.flatMap_congr fun c hc => ?_)
        rw [(hinside c hc).2]
  · rintro ⟨rfl, rfl⟩
    induction fuel generalizing id with
    | zero => omega
    | succ fuel ih =>
      refine .folder hid fun c hc => ?_
      have hb := h.above id c hc
      exact ih hb.2 (by omega)

/-! ## What a run visits -/

/-- Only folders are visited to which a way from `id` leads. -/
theorem exists_find?_of_mem_visits (h : arena.Coherent) {fuel id j : Nat}
    (hj : j ∈ visits arena fuel id) : ∃ names, arena.find? id names = some j := by
  induction fuel generalizing id with
  | zero => cases hj
  | succ fuel ih =>
    rcases List.mem_cons.1 hj with rfl | hj
    · exact ⟨[], rfl⟩
    · obtain ⟨c, hc, hj⟩ := List.mem_flatMap.1 hj
      obtain ⟨names, hnames⟩ := ih hj
      exact ⟨_ :: names, Option.bind_eq_some_iff.2 ⟨c, h.inside?_eq_some.2 ⟨hc, rfl⟩, hnames⟩⟩

/-- All of them, with a way of `names`, are visited. -/
theorem mem_visits_of_find? (h : arena.Coherent) {fuel id j : Nat} (hid : id < arena.size)
    (hfuel : arena.size ≤ fuel + id) {names : List String} (hj : arena.find? id names = some j) :
    j ∈ visits arena fuel id := by
  induction fuel generalizing id names with
  | zero => omega
  | succ fuel ih =>
    cases names with
    | nil =>
      cases hj
      exact List.mem_cons_self
    | cons name names =>
      obtain ⟨c, hc, hj⟩ := Option.bind_eq_some_iff.1 hj
      have hmem := (h.inside?_eq_some.1 hc).1
      have hb := h.above id c hmem
      exact List.mem_cons_of_mem _ (List.mem_flatMap.2 ⟨c, hmem, ih hb.2 (by omega) hj⟩)

theorem nodup_visits (h : arena.Coherent) (fuel id : Nat) : (visits arena fuel id).Nodup := by
  induction fuel generalizing id with
  | zero => exact List.nodup_nil
  | succ fuel ih =>
    refine List.nodup_cons.2 ⟨fun hself => ?_, List.nodup_flatMap.2 ⟨fun c _ => ih c, ?_⟩⟩
    · obtain ⟨c, hc, hself⟩ := List.mem_flatMap.1 hself
      obtain ⟨names, hnames⟩ := exists_find?_of_mem_visits h hself
      exact absurd (h.le_find? hnames) (Nat.not_le_of_lt (h.above id c hc).1)
    · refine (List.pairwise_map.1 (h.names id)).imp_of_mem fun {c d} hc hd hne => ?_
      rw [Function.onFun_apply, List.disjoint_left]
      intro j hcj hdj
      obtain ⟨names, hnames⟩ := exists_find?_of_mem_visits h hcj
      obtain ⟨names', hnames'⟩ := exists_find?_of_mem_visits h hdj
      exact hne (h.name_eq_of_find? hc hd hnames hnames')

/-- **From the root every folder is visited once**, in the list of `visits`. -/
theorem visits_root_perm (h : arena.Coherent) {fuel : Nat} (hfuel : arena.size ≤ fuel) :
    (visits arena fuel FolderArena.root).Perm (List.range arena.size) := by
  refine (List.perm_ext_iff_of_nodup (nodup_visits h _ _) List.nodup_range).2 fun j => ?_
  rw [List.mem_range]
  constructor
  · intro hj
    obtain ⟨names, hnames⟩ := exists_find?_of_mem_visits h hj
    exact h.find?_lt h.pos hnames
  · intro hj
    obtain ⟨names, hnames⟩ := h.exists_find? hj
    exact mem_visits_of_find? h h.pos hfuel hnames

/-! ## Main statement -/

open FolderArena (inserted root)

/-- **The folders stay a tree**, whatever `steps` are inserted. Folders inside have greater numbers
(`Coherent`); every folder but the root stands in one list, once; the folders in one list have
different names, and the index has these names and no others. The one way from the root to the
folder that a path has marked spells the path (`Leads`), and no mark is there that was not inserted.
Hence collecting comes to an end (`Collects`), looks up every folder once and nothing else; how much
`fuel` it has beyond the number of folders does not matter. A path to a folder that is there changes
the mark of this folder and nothing else. -/
theorem insertions_keep_tree (steps : List (List String × Nat)) :
    (inserted steps).Coherent ∧
    (∀ c, root < c → c < (inserted steps).size → ∃ p < (inserted steps).size,
      ∀ q, ((inserted steps).folder q).children.count c = if q = p then 1 else 0) ∧
    (∀ before segs mark after, steps = before ++ (segs, mark) :: after → ∀ names,
      (inserted steps).Leads root names ((inserted before).descend root segs).2 ↔ names = segs) ∧
    (∀ id k, ((inserted steps).folder id).mark = some k → k ∈ steps.map (·.2)) ∧
    (∃ visited : List Nat, visited.Perm (List.range (inserted steps).size) ∧
      ∀ records fuel, (inserted steps).size ≤ fuel → ∀ visited' entries,
        Collects (inserted steps) records root visited' entries ↔
          visited' = visited ∧ entries = collect (inserted steps) records fuel root) ∧
    ∀ segs id, (inserted steps).Leads root segs id → ∀ mark,
      ((inserted steps).insert segs mark).size = (inserted steps).size ∧
      ∀ j, ((inserted steps).insert segs mark).folder j =
        if j = id then { (inserted steps).folder id with mark := some mark }
        else (inserted steps).folder j := by
  have h := FolderArena.coherent_inserted steps
  refine ⟨h, fun c => h.count_children, ?_, fun id k => FolderArena.mark_inserted, ?_, ?_⟩
  · rintro before segs mark after rfl names
    have hway := FolderArena.find?_inserted before segs mark after
    rw [h.leads_iff]
    constructor
    · intro hnames
      exact h.find?_inj hnames hway
    · rintro rfl
      exact hway
  · refine ⟨visits (inserted steps) (inserted steps).size root,
      visits_root_perm h (Nat.le_refl _), fun records fuel hfuel visited' entries => ?_⟩
    have hrun := (collects_iff h records h.pos
      (Nat.le_refl ((inserted steps).size + root))).2 ⟨rfl, rfl⟩
    rw [((collects_iff h records h.pos hfuel).1 hrun).1]
    exact collects_iff h records h.pos hfuel
  · intro segs id hway mark
    rw [h.leads_iff] at hway
    exact ⟨FolderArena.size_insert_of_find? hway mark,
      FolderArena.folder_insert_of_find? h hway mark⟩

/-- A folder made on the way to another one, before its own path comes. -/
theorem insertions_keep_tree_inner_first :
    let arena := inserted [(["a", "b"], 0), (["c"], 1)]
    arena.size = 4 ∧ arena.Leads root ["a"] 1 ∧
      (∀ j, (arena.insert ["a"] 2).folder j =
        if j = 1 then { arena.folder 1 with mark := some 2 } else arena.folder j) ∧
      (∀ names, arena.Leads root names 2 ↔ names = ["a", "b"]) ∧
      ∃ visited : List Nat, visited.Perm [0, 1, 2, 3] ∧
        ∀ records, Collects arena records root visited (collect arena records 4 root) := by
  intro arena
  obtain ⟨-, -, hspells, -, ⟨visited, hperm, hruns⟩, hagain⟩ :=
    insertions_keep_tree [(["a", "b"], 0), (["c"], 1)]
  have hway : arena.Leads root ["a"] 1 :=
    .into (show 1 ∈ (arena.folder root).children by decide) (.here 1)
  exact ⟨rfl, hway, (hagain ["a"] 1 hway 2).2, hspells [] ["a", "b"] 0 [(["c"], 1)] rfl,
    visited, hperm, fun records => (hruns records 4 (Nat.le_refl 4) _ _).2 ⟨rfl, rfl⟩⟩

end Topology

end FlowMigration
