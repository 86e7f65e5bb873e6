import FlowMigration.Proofs.Topology.Arena
import FlowMigration.Topology.Entry

/-!
# The nesting of packages

`Topology.Nested entries`: every entry excludes exactly the entries inside it, which stand as one
block right before it. Renaming, joining lists of unrelated entries and closing a folder keep this
(`Nested.within`, `Nested.append`, `Nested.close`), hence every collected list has it
(`nested_collect`).

* `excludes_eq_inside`: the excludes of a package are the packages inside it, in their order.
* `build_places_all`: the topology has one entry for every directory with a manifest, and the last
  manifest of the directory in it.
-/

namespace FlowMigration.Topology

/-- The place `inner` lies inside the place `outer`. -/
def Encloses (outer inner : List String) : Prop := outer <+: inner ∧ inner ≠ outer

instance : DecidableRel Encloses := fun _ _ => inferInstanceAs (Decidable (_ ∧ _))

/-- Right before every entry stand those inside it, which are what it excludes. No other entry of
the list has its place or a place inside it. -/
def Nested (entries : List TopologyEntry) : Prop :=
  ∀ before e after, entries = before ++ e :: after →
    ∃ others inside, before = others ++ inside ∧ e.excludes = inside.map (·.parts) ∧
      (∀ d ∈ inside, Encloses e.parts d.parts) ∧ ∀ d ∈ others ++ after, ¬e.parts <+: d.parts

/-! ## Closure of the invariant -/

theorem nested_nil : Nested [] := by
  intro before e after h
  exact absurd h.symm (by simp)

theorem Nested.within {entries : List TopologyEntry} (h : Nested entries) (name : String) :
    Nested (entries.map (·.within name)) := by
  intro before e after he
  obtain ⟨before', tail, rfl, rfl, htail⟩ := List.map_eq_append_iff.1 he
  obtain ⟨e', after', rfl, rfl, rfl⟩ := List.map_eq_cons_iff.1 htail
  obtain ⟨others, inside, rfl, hex, hin, hout⟩ := h before' e' after' rfl
  refine ⟨others.map (·.within name), inside.map (·.within name), by simp, ?_, ?_, ?_⟩
  · simp [TopologyEntry.within, hex, Function.comp_def]
  · intro d hd
    obtain ⟨d', hd', rfl⟩ := List.mem_map.1 hd
    simpa [TopologyEntry.within, Encloses, List.cons_prefix_cons] using hin d' hd'
  · intro d hd
    rw [← List.map_append] at hd
    obtain ⟨d', hd', rfl⟩ := List.mem_map.1 hd
    simpa [TopologyEntry.within, List.cons_prefix_cons] using hout d' hd'

theorem Nested.append {as bs : List TopologyEntry} (ha : Nested as) (hb : Nested bs)
    (hab : ∀ a ∈ as, ∀ b ∈ bs, ¬a.parts <+: b.parts ∧ ¬b.parts <+: a.parts) :
    Nested (as ++ bs) := by
  intro before e after he
  rcases List.append_eq_append_iff.1 he with ⟨front, rfl, hbs⟩ | ⟨rest, rfl, hrest⟩
  · -- the entry is one of `bs`
    obtain ⟨others, inside, rfl, hex, hin, hout⟩ := hb front e after hbs
    have hmem : e ∈ bs := by simp [hbs]
    refine ⟨as ++ others, inside, by simp, hex, hin, fun d hd => ?_⟩
    rw [List.append_assoc] at hd
    rcases List.mem_append.1 hd with hd | hd
    · exact (hab d hd e hmem).2
    · exact hout d hd
  · cases rest with
    | nil =>
      obtain ⟨others, inside, ho, hex, hin, hout⟩ := hb [] e after (by simpa using hrest.symm)
      obtain ⟨rfl, rfl⟩ := List.append_eq_nil_iff.1 ho.symm
      have hmem : e ∈ bs := by
        have : e ∈ e :: after := List.mem_cons_self
        rw [hrest] at this
        simpa using this
      refine ⟨before, [], by simp, hex, hin, fun d hd => ?_⟩
      rcases List.mem_append.1 hd with hd | hd
      · exact (hab d (by simpa using hd) e hmem).2
      · exact hout d (by simpa using hd)
    | cons e' rest =>
      simp only [List.cons_append, List.cons.injEq] at hrest
      obtain ⟨rfl, rfl⟩ := hrest
      obtain ⟨others, inside, rfl, hex, hin, hout⟩ := ha before e rest rfl
      refine ⟨others, inside, rfl, hex, hin, fun d hd => ?_⟩
      rw [← List.append_assoc] at hd
      rcases List.mem_append.1 hd with hd | hd
      · exact hout d hd
      · exact (hab e (by simp) d hd).1

/-- The folder around a list of `entries` gets its own entry, which excludes them all. -/
theorem Nested.close {entries : List TopologyEntry} (h : Nested entries)
    (hne : ∀ d ∈ entries, d.parts ≠ []) (record : ManifestRecord) :
    Nested (entries ++ [⟨record, [], entries.map (·.parts)⟩]) := by
  intro before e after he
  rcases List.append_eq_append_iff.1 he with ⟨front, rfl, hown⟩ | ⟨rest, rfl, hrest⟩
  · -- the entry is the folder's own
    have hfront : front = [] := by
      cases front with
      | nil => rfl
      | cons d front => exact absurd (congrArg List.length hown) (by simp)
    subst hfront
    obtain ⟨rfl, rfl⟩ := List.cons.inj hown
    exact ⟨[], entries, by simp, rfl, fun d hd => ⟨List.nil_prefix, hne d hd⟩, by simp⟩
  · cases rest with
    | nil =>
      obtain ⟨rfl, rfl⟩ := List.cons.inj hrest
      exact ⟨[], before, by simp, by simp,
        fun d hd => ⟨List.nil_prefix, hne d (by simpa using hd)⟩, by simp⟩
    | cons e' rest =>
      simp only [List.cons_append, List.cons.injEq] at hrest
      obtain ⟨rfl, rfl⟩ := hrest
      obtain ⟨others, inside, rfl, hex, hin, hout⟩ := h before e rest rfl
      refine ⟨others, inside, rfl, hex, hin, fun d hd => ?_⟩
      rw [← List.append_assoc] at hd
      rcases List.mem_append.1 hd with hd | hd
      · exact hout d hd
      · rw [List.mem_singleton.1 hd]
        simpa [List.prefix_nil] using hne e (by simp)

/-- The `lists` of folders of different names may be joined. -/
theorem nested_flatMap {ids : List Nat} {name : Nat → String} {lists : Nat → List TopologyEntry}
    (hnd : (ids.map name).Nodup) (h : ∀ id ∈ ids, Nested (lists id)) :
    Nested (ids.flatMap fun id => (lists id).map (·.within (name id))) := by
  induction ids with
  | nil => exact nested_nil
  | cons id ids ih =>
    simp only [List.map_cons, List.nodup_cons, List.mem_map, not_exists, not_and] at hnd
    rw [List.flatMap_cons]
    refine ((h id (by simp)).within (name id)).append
      (ih hnd.2 fun c hc => h c (List.mem_cons_of_mem _ hc)) fun a ha b hb => ?_
    obtain ⟨a', -, rfl⟩ := List.mem_map.1 ha
    obtain ⟨c, hc, hb⟩ := List.mem_flatMap.1 hb
    obtain ⟨b', -, rfl⟩ := List.mem_map.1 hb
    have hne := hnd.1 c hc
    simp only [TopologyEntry.within, List.cons_prefix_cons]
    exact ⟨fun h => hne h.1.symm, fun h => hne h.1⟩

/-! ## Collecting -/

section
variable {arena : FolderArena} (harena : arena.Coherent) (records : List ManifestRecord)

/-- The entries of the folders inside the folder `id`. -/
def collectInside (arena : FolderArena) (records : List ManifestRecord) (fuel id : Nat) :
    List TopologyEntry :=
  (arena.folder id).children.flatMap fun child =>
    (collect arena records fuel child).map (·.within (arena.folder child).name)

/-- The record that the folder `id` is marked with. -/
def recordOf? (arena : FolderArena) (records : List ManifestRecord) (id : Nat) :
    Option ManifestRecord :=
  (arena.folder id).mark.bind (records[·]?)

theorem collect_succ (fuel id : Nat) :
    collect arena records (fuel + 1) id =
      match recordOf? arena records id with
      | some record => collectInside arena records fuel id ++
          [⟨record, [], (collectInside arena records fuel id).map (·.parts)⟩]
      | none => collectInside arena records fuel id := rfl

theorem parts_ne_nil_of_mem_collectInside {fuel id : Nat} {e : TopologyEntry}
    (he : e ∈ collectInside arena records fuel id) : e.parts ≠ [] := by
  obtain ⟨c, -, he⟩ := List.mem_flatMap.1 he
  obtain ⟨e', -, rfl⟩ := List.mem_map.1 he
  exact List.cons_ne_nil _ _

include harena

/-- **Collected entries are `Nested`.** -/
theorem nested_collect (fuel id : Nat) : Nested (collect arena records fuel id) := by
  induction fuel generalizing id with
  | zero => exact nested_nil
  | succ fuel ih =>
    have hin : Nested (collectInside arena records fuel id) :=
      nested_flatMap (harena.names id) fun c _ => ih c
    rw [collect_succ]
    split
    · exact hin.close (fun d hd => parts_ne_nil_of_mem_collectInside records hd) _
    · exact hin

/-- **The entries collected from a folder** are the marked folders that names lead to from it; every
folder has a number below `fuel` more than its own. -/
theorem exists_mem_collect {fuel id : Nat} (hid : id < arena.size) (hfuel : arena.size ≤ fuel + id)
    (segs : List String) (record : ManifestRecord) :
    (∃ e ∈ collect arena records fuel id, e.parts = segs ∧ e.record = record) ↔
      (arena.find? id segs).bind (recordOf? arena records) = some record := by
  induction fuel generalizing id segs with
  | zero => omega
  | succ fuel ih =>
    cases segs with
    | nil =>
      rw [collect_succ]
      simp only [FolderArena.find?, Option.bind_some]
      cases hr : recordOf? arena records id with
      | none =>
        simp only [reduceCtorEq, iff_false, not_exists, not_and]
        intro e he hp
        exact absurd hp (parts_ne_nil_of_mem_collectInside records he)
      | some r =>
        simp only [List.mem_append, List.mem_singleton, Option.some.injEq]
        constructor
        · rintro ⟨e, he | rfl, hp, rfl⟩
          · exact absurd hp (parts_ne_nil_of_mem_collectInside records he)
          · rfl
        · rintro rfl
          exact ⟨_, .inr rfl, rfl, rfl⟩
    | cons name rest =>
      have hown : (∃ e ∈ collect arena records (fuel + 1) id,
          e.parts = name :: rest ∧ e.record = record) ↔
          ∃ e ∈ collectInside arena records fuel id, e.parts = name :: rest ∧ e.record = record := by
        rw [collect_succ]
        split
        · simp
        · rfl
      rw [hown]
      simp only [FolderArena.find?, Option.bind_assoc]
      constructor
      · rintro ⟨e, he, hp, hr⟩
        obtain ⟨c, hc, he⟩ := List.mem_flatMap.1 he
        obtain ⟨e', he', rfl⟩ := List.mem_map.1 he
        obtain ⟨hn, hp⟩ := List.cons.inj hp
        have hb := harena.above id c hc
        rw [harena.inside?_eq_some.2 ⟨hc, hn⟩]
        exact (ih hb.2 (by omega) rest).1 ⟨e', he', hp, hr⟩
      · intro h
        obtain ⟨c, hc, h⟩ := Option.bind_eq_some_iff.1 h
        obtain ⟨hc, hn⟩ := harena.inside?_eq_some.1 hc
        have hb := harena.above id c hc
        obtain ⟨e, he, hp, hr⟩ := (ih hb.2 (by omega) rest).2 h
        exact ⟨e.within (arena.folder c).name,
          List.mem_flatMap.2 ⟨c, hc, List.mem_map.2 ⟨e, he, rfl⟩⟩,
          by simp [TopologyEntry.within, hn, hp], hr⟩

end

/-! ## The topology of manifests -/

theorem build_eq (records : List ManifestRecord) :
    build records = collect (.ofPaths (records.map (·.dirSegments))) records
      (FolderArena.ofPaths (records.map (·.dirSegments))).size FolderArena.root := rfl

theorem nested_build (records : List ManifestRecord) : Nested (build records) :=
  nested_collect (FolderArena.coherent_ofPaths _) records _ _

theorem Nested.nodup {entries : List TopologyEntry} (h : Nested entries) :
    (entries.map (·.parts)).Nodup := by
  have key : ∀ front rest, entries = front ++ rest →
      rest.Pairwise fun a b => a.parts ≠ b.parts := by
    intro front rest
    induction rest generalizing front with
    | nil => exact fun _ => .nil
    | cons e rest ih =>
      intro he
      obtain ⟨others, inside, -, -, -, hout⟩ := h front e rest he
      refine .cons (fun d hd hp => ?_) (ih (front ++ [e]) (by simp [he]))
      exact hout d (List.mem_append_right _ hd) (hp ▸ List.prefix_rfl)
  exact List.pairwise_map.2 (key [] entries rfl)

/-- The position of the last path that is `segs` is the mark. -/
theorem markAt?_ofPaths {α : Type} (path : α → List String) (xs : List α) (segs : List String) :
    ((FolderArena.ofPaths (xs.map path)).markAt? segs).bind (xs[·]?) =
        (xs.filter fun x => path x = segs).getLast? ∧
      ∀ k, (FolderArena.ofPaths (xs.map path)).markAt? segs = some k → k < xs.length := by
  induction xs using List.reverseRecOn with
  | nil => simp [FolderArena.ofPaths]
  | append_singleton xs x ih =>
    have hco := FolderArena.coherent_ofPaths (xs.map path)
    rw [List.map_append, List.map_singleton, FolderArena.ofPaths_concat,
      FolderArena.markAt?_insert hco, List.length_map]
    by_cases hs : segs = path x
    · subst hs
      simp
    · rw [if_neg hs, List.filter_append]
      refine ⟨?_, fun k hk => ?_⟩
      · have hx : [x].filter (fun x => path x = segs) = [] := by simp [Ne.symm hs]
        rw [hx, List.append_nil, ← ih.1]
        cases hm : (FolderArena.ofPaths (xs.map path)).markAt? segs with
        | none => rfl
        | some k => simp [List.getElem?_append_left (ih.2 k hm)]
      · have := ih.2 k hk
        simp only [List.length_append, List.length_singleton]
        omega

/-- **An entry of the topology** is a directory `segs` with manifests and the last one in it. -/
theorem exists_mem_build (records : List ManifestRecord) (segs : List String)
    (record : ManifestRecord) :
    (∃ e ∈ build records, e.parts = segs ∧ e.record = record) ↔
      (records.filter fun r => r.dirSegments = segs).getLast? = some record := by
  have hco := FolderArena.coherent_ofPaths (records.map (·.dirSegments))
  rw [build_eq, exists_mem_collect hco records hco.pos (by simp [FolderArena.root]),
    ← (markAt?_ofPaths (·.dirSegments) records segs).1, FolderArena.markAt?, Option.bind_assoc]
  rfl

theorem record_of_mem_build {records : List ManifestRecord} {e : TopologyEntry}
    (he : e ∈ build records) :
    (records.filter fun r => r.dirSegments = e.parts).getLast? = some e.record :=
  (exists_mem_build records e.parts e.record).1 ⟨e, he, rfl, rfl⟩

theorem mem_records_of_mem_build {records : List ManifestRecord} {e : TopologyEntry}
    (he : e ∈ build records) : e.record ∈ records ∧ e.record.dirSegments = e.parts := by
  simpa using List.mem_filter.1 (List.mem_of_getLast? (record_of_mem_build he))

theorem exists_entry {records : List ManifestRecord} {r : ManifestRecord} (hr : r ∈ records) :
    ∃ e ∈ build records, e.parts = r.dirSegments := by
  have hne : (records.filter fun x => x.dirSegments = r.dirSegments) ≠ [] :=
    List.ne_nil_of_mem (List.mem_filter.2 ⟨hr, by simp⟩)
  obtain ⟨e, he, hp, -⟩ := (exists_mem_build records r.dirSegments _).2
    (List.getLast?_eq_some_getLast hne)
  exact ⟨e, he, hp⟩

theorem mem_excludes {records : List ManifestRecord} {e g : TopologyEntry} (he : e ∈ build records)
    (hg : g ∈ build records) (h : Encloses e.parts g.parts) : g.parts ∈ e.excludes := by
  obtain ⟨before, after, hb⟩ := List.append_of_mem he
  obtain ⟨others, inside, rfl, hex, -, hout⟩ := nested_build records before e after hb
  rw [hb] at hg
  rw [hex]
  rcases List.mem_append.1 hg with hg | hg
  · rcases List.mem_append.1 hg with hg | hg
    · exact absurd h.1 (hout g (List.mem_append_left _ hg))
    · exact List.mem_map_of_mem hg
  · rcases List.mem_cons.1 hg with rfl | hg
    · exact absurd rfl h.2
    · exact absurd h.1 (hout g (List.mem_append_right _ hg))

/-- Only packages inside `e` are excluded. -/
theorem exists_of_mem_excludes {records : List ManifestRecord} {e : TopologyEntry}
    (he : e ∈ build records) {parts : List String} (h : parts ∈ e.excludes) :
    Encloses e.parts parts ∧ ∃ g ∈ build records, g.parts = parts := by
  obtain ⟨before, after, hb⟩ := List.append_of_mem he
  obtain ⟨others, inside, rfl, hex, hin, -⟩ := nested_build records before e after hb
  rw [hex] at h
  obtain ⟨g, hg, rfl⟩ := List.mem_map.1 h
  refine ⟨hin g hg, g, ?_, rfl⟩
  rw [hb]
  exact List.mem_append_left _ (List.mem_append_right _ hg)

/-! ## Main statements -/

/-- **The excludes of a package `e`** are the packages inside it (`Encloses`), however deep and
through whatever folders without a manifest, in the order of the topology; their entries stand as
one block, `inside`, right before its own. -/
theorem excludes_eq_inside (records : List ManifestRecord) (before : List TopologyEntry)
    (e : TopologyEntry) (after : List TopologyEntry)
    (h : build records = before ++ e :: after) :
    e.excludes = ((build records).map (·.parts)).filter (Encloses e.parts) ∧
      e.excludes.Nodup ∧
      ∃ others inside, before = others ++ inside ∧ e.excludes = inside.map (·.parts) ∧
        (∀ d ∈ inside, Encloses e.parts d.parts) ∧
        ∀ d ∈ others ++ after, ¬e.parts <+: d.parts := by
  obtain ⟨others, inside, hb, hex, hin, hout⟩ := nested_build records before e after h
  have hnone : ∀ ds : List TopologyEntry, ds ⊆ others ++ after →
      (ds.map (·.parts)).filter (Encloses e.parts) = [] := by
    intro ds hds
    refine List.filter_eq_nil_iff.2 fun parts hp => ?_
    obtain ⟨d, hd, rfl⟩ := List.mem_map.1 hp
    simpa using fun h : Encloses e.parts d.parts => hout d (hds hd) h.1
  have hall : (inside.map (·.parts)).filter (Encloses e.parts) = inside.map (·.parts) := by
    refine List.filter_eq_self.2 fun parts hp => ?_
    obtain ⟨d, hd, rfl⟩ := List.mem_map.1 hp
    simpa using hin d hd
  have hself : ¬Encloses e.parts e.parts := fun h => h.2 rfl
  have hfilter : ((build records).map (·.parts)).filter (Encloses e.parts) = e.excludes := by
    rw [h, hb, hex]
    simp only [List.map_append, List.map_cons, List.filter_append, hall,
      hnone others (List.subset_append_left _ _), List.filter_cons, hself, decide_false,
      hnone after (List.subset_append_right _ _)]
    simp
  refine ⟨hfilter.symm, ?_, others, inside, hb, hex, hin, hout⟩
  rw [← hfilter]
  exact (nested_build records).nodup.filter _

/-- A package two folders below another one, and one beside them. -/
theorem excludes_eq_inside_skipped_folder :
    build [⟨"a/package.json", .error ""⟩, ⟨"a/x/b/package.json", .error ""⟩,
        ⟨"a-b/package.json", .error ""⟩] =
      [⟨⟨"a/x/b/package.json", .error ""⟩, ["a", "x", "b"], []⟩] ++
        ⟨⟨"a/package.json", .error ""⟩, ["a"], [["a", "x", "b"]]⟩ ::
          [⟨⟨"a-b/package.json", .error ""⟩, ["a-b"], []⟩] ∧
      [["a", "x", "b"]] = ((build [⟨"a/package.json", .error ""⟩,
        ⟨"a/x/b/package.json", .error ""⟩, ⟨"a-b/package.json", .error ""⟩]).map
          (·.parts)).filter (Encloses ["a"]) := by
  have h : build [⟨"a/package.json", .error ""⟩, ⟨"a/x/b/package.json", .error ""⟩,
      ⟨"a-b/package.json", .error ""⟩] =
      [⟨⟨"a/x/b/package.json", .error ""⟩, ["a", "x", "b"], []⟩] ++
        ⟨⟨"a/package.json", .error ""⟩, ["a"], [["a", "x", "b"]]⟩ ::
          [⟨⟨"a-b/package.json", .error ""⟩, ["a-b"], []⟩] := by
    rfl
  exact ⟨h, (excludes_eq_inside _ _ _ _ h).1⟩

/-- **Every directory with a manifest has its place in the topology** that `build` comes to, and
nothing else has: the last manifest of the directory is the one that counts. -/
theorem build_places_all (records : List ManifestRecord) :
    ((build records).map (·.parts)).Nodup ∧
      (∀ segs, (∃ e ∈ build records, e.parts = segs) ↔ ∃ r ∈ records, r.dirSegments = segs) ∧
      (∀ e ∈ build records,
        (records.filter fun r => r.dirSegments = e.parts).getLast? = some e.record) ∧
      ((records.map (·.dirSegments)).Nodup → ((build records).map (·.record)).Perm records) := by
  have hnd := (nested_build records).nodup
  refine ⟨hnd, fun segs => ⟨?_, ?_⟩, fun e he => record_of_mem_build he, fun hdirs => ?_⟩
  · rintro ⟨e, he, rfl⟩
    exact ⟨e.record, mem_records_of_mem_build he⟩
  · rintro ⟨r, hr, rfl⟩
    exact exists_entry hr
  · have hrec : ((build records).map (·.record)).map (·.dirSegments) =
        (build records).map (·.parts) := by
      rw [List.map_map]
      exact List.map_congr_left fun e he => (mem_records_of_mem_build he).2
    refine (List.perm_ext_iff_of_nodup (.of_map _ (hrec ▸ hnd)) (.of_map _ hdirs)).2 fun r => ?_
    constructor
    · intro hr
      obtain ⟨e, he, rfl⟩ := List.mem_map.1 hr
      exact (mem_records_of_mem_build he).1
    · intro hr
      obtain ⟨e, he, hp⟩ := exists_entry hr
      obtain ⟨hmem, hdir⟩ := mem_records_of_mem_build he
      have : e.record = r := List.inj_on_of_nodup_map hdirs hmem hr (hdir.trans hp)
      exact List.mem_map.2 ⟨e, he, this⟩

/-- A package found before the one around it. -/
theorem build_places_all_inner_first :
    let records : List ManifestRecord :=
      [⟨"a/b/package.json", .error ""⟩, ⟨"a/package.json", .ok {}⟩, ⟨"package.json", .ok {}⟩]
    (records.map (·.dirSegments)).Nodup ∧ ((build records).map (·.record)).Perm records := by
  have hnd : ([["a", "b"], ["a"], []] : List (List String)).Nodup := by decide
  exact ⟨hnd, (build_places_all _).2.2.2 hnd⟩

end FlowMigration.Topology
