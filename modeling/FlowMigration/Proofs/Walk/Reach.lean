import FlowMigration.Proofs.Disk.Follow
import FlowMigration.Walk

/-!
# What a walk reaches

* `mem_below`: names lead to every entry of a walk, and the walk kept everything on the way.
* `mem_entries`: the same of a walk from a path, which may be an entry itself.
* `nodup_entries`: a walk comes to no entry twice.
-/

namespace FlowMigration.Walk

/-- Names lead on from an entry, and `keep` lets the walk in everywhere on the way. -/
def Reaches (keep : List String → Node → Bool) (names : List String) (entry : String × Node)
    (e : WalkEntry) : Prop :=
  ∃ rest, e.names = names ++ entry.1 :: rest ∧ entry.2.get? rest = some e.node ∧
    ∀ front, front <+: rest →
      ∃ node, entry.2.get? front = some node ∧ keep (names ++ entry.1 :: front) node = true

variable {disk : Disk} {keep : List String → Node → Bool} {e : WalkEntry}

theorem reaches_self {names : List String} {entry : String × Node}
    (hk : keep (names ++ [entry.1]) entry.2 = true) :
    Reaches keep names entry ⟨names ++ [entry.1], entry.2⟩ := by
  refine ⟨[], rfl, Node.get?_nil _, fun front hf => ?_⟩
  obtain rfl := List.prefix_nil.1 hf
  exact ⟨entry.2, Node.get?_nil _, hk⟩

theorem Reaches.within {names : List String} {name : String} {inside : List (String × Node)}
    (hasc : inside.Pairwise fun a b => a.1 < b.1)
    (hk : keep (names ++ [name]) (.dir inside) = true) {entry : String × Node}
    (hmem : entry ∈ inside) (h : Reaches keep (names ++ [name]) entry e) :
    Reaches keep names (name, .dir inside) e := by
  obtain ⟨rest, hn, hg, hf⟩ := h
  have hentry : Entries.get? entry.1 inside = some entry.2 := Entries.get?_of_mem hasc hmem
  refine ⟨entry.1 :: rest, by simpa using hn, by simp [hentry, hg], fun front hfront => ?_⟩
  cases front with
  | nil => exact ⟨.dir inside, Node.get?_nil _, hk⟩
  | cons n front =>
    obtain ⟨rfl, hrest⟩ := List.cons_prefix_cons.1 hfront
    obtain ⟨node, hnode, hkeep⟩ := hf front hrest
    exact ⟨node, by simp [hentry, hnode], by simpa using hkeep⟩

mutual

/-- **Names lead to every entry of a walk**: `below` comes to nothing that none of the `entries`
`Reaches`. -/
theorem mem_below {layers : List IgnoreLayer} {place names : List String} :
    (entries : List (String × Node)) → (∀ entry ∈ entries, entry.2.WellFormed) →
      e ∈ below disk keep layers place names entries → ∃ entry ∈ entries, Reaches keep names entry e
  | [], _, h => by simp [below] at h
  | entry :: rest, hw, h => by
    rw [below, List.mem_append] at h
    rcases h with h | h
    · exact ⟨entry, by simp, mem_belowEntry entry (hw entry (by simp)) h⟩
    · obtain ⟨entry', hmem, hr⟩ :=
        mem_below rest (fun x hx => hw x (List.mem_cons_of_mem _ hx)) h
      exact ⟨entry', List.mem_cons_of_mem _ hmem, hr⟩

theorem mem_belowEntry {layers : List IgnoreLayer} {place names : List String} :
    (entry : String × Node) → entry.2.WellFormed →
      e ∈ belowEntry disk keep layers place names entry → Reaches keep names entry e
  | (name, .dir inside), hw, h => by
    rw [belowEntry] at h
    split at h
    · simp at h
    · next hno =>
      have hk : keep (names ++ [name]) (.dir inside) = true := by
        simpa using (not_or.1 hno).2
      rcases List.mem_cons.1 h with rfl | h
      · exact reaches_self hk
      · obtain ⟨entry', hmem, hr⟩ := mem_below inside hw.inside h
        exact hr.within hw.own.ascending hk hmem
  | (name, .file content), _, h => by
    rw [belowEntry] at h
    · split at h
      · simp at h
      · next hno =>
        obtain rfl := List.mem_singleton.1 h
        exact reaches_self (by simpa using (not_or.1 hno).2)
    · simp
  | (name, .link target), _, h => by
    rw [belowEntry] at h
    · split at h
      · simp at h
      · next hno =>
        obtain rfl := List.mem_singleton.1 h
        exact reaches_self (by simpa using (not_or.1 hno).2)
    · simp

end

mutual

/-- **A walk comes to nothing twice**: what `below` comes to from different entries begins with
different names. -/
theorem nodup_below {layers : List IgnoreLayer} {place names : List String} :
    (entries : List (String × Node)) → (∀ entry ∈ entries, entry.2.WellFormed) →
      (entries.Pairwise fun a b => a.1 < b.1) →
      ((below disk keep layers place names entries).map (·.names)).Nodup
  | [], _, _ => by simp [below]
  | entry :: rest, hw, hasc => by
    have hrest : ∀ x ∈ rest, x.2.WellFormed := fun x hx => hw x (List.mem_cons_of_mem _ hx)
    obtain ⟨hfirst, hasc⟩ := List.pairwise_cons.1 hasc
    rw [below, List.map_append]
    refine List.nodup_append.2 ⟨nodup_belowEntry entry (hw entry (by simp)),
      nodup_below rest hrest hasc, ?_⟩
    rintro ns hns ns' hns' rfl
    obtain ⟨e, he, rfl⟩ := List.mem_map.1 hns
    obtain ⟨e', he', hsame⟩ := List.mem_map.1 hns'
    obtain ⟨more, hn, -⟩ := mem_belowEntry entry (hw entry (by simp)) he
    obtain ⟨entry', hmem, more', hn', -⟩ := mem_below rest hrest he'
    rw [hn, hn'] at hsame
    have hname := (List.cons.inj (List.append_cancel_left hsame)).1
    exact absurd (hfirst entry' hmem) (by rw [hname]; exact String.lt_irrefl _)

theorem nodup_belowEntry {layers : List IgnoreLayer} {place names : List String} :
    (entry : String × Node) → entry.2.WellFormed →
      ((belowEntry disk keep layers place names entry).map (·.names)).Nodup
  | (name, .dir inside), hw => by
    rw [belowEntry]
    split
    · simp
    · refine List.nodup_cons.2 ⟨fun hmem => ?_, nodup_below inside hw.inside hw.own.ascending⟩
      obtain ⟨e, he, hself⟩ := List.mem_map.1 hmem
      obtain ⟨entry', -, more, hn, -⟩ := mem_below inside hw.inside he
      have hlen := congrArg List.length (hn.symm.trans hself)
      simp at hlen
  | (name, .file content), _ => by
    rw [belowEntry]
    · split <;> simp
    · simp
  | (name, .link target), _ => by
    rw [belowEntry]
    · split <;> simp
    · simp

end

theorem located_of_entries {start : String} {found : List WalkEntry}
    (h : entries disk keep start = .ok found) : ∃ place, disk.locate start = .ok place := by
  unfold entries at h
  split at h
  · cases h
  · split at h
    · cases h
    · next place hplace => exact ⟨place, hplace⟩

/-- **The entries of a walk** from `start`: that path itself, and from a directory on what names
lead to through nothing that `keep` refuses. -/
theorem mem_entries {start : String} {found : List WalkEntry} (hw : disk.root.WellFormed)
    (hfound : entries disk keep start = .ok found) (he : e ∈ found) :
    (e.names = [] ∧ disk.entry start = .ok e.node) ∨
      ∃ place inside, disk.locate start = .ok place ∧
        disk.root.get? place = some (.dir inside) ∧
        (Node.dir inside).get? e.names = some e.node ∧
        ∀ front, front ≠ [] → front <+: e.names →
          ∃ node, (Node.dir inside).get? front = some node ∧ keep front node = true := by
  unfold entries at hfound
  split at hfound
  · cases hfound
  · next node hnode =>
    split at hfound
    · cases hfound
    · next place hplace =>
      split at hfound
      · next inside hinside =>
        dsimp only at hfound
        split at hfound
        · cases hfound
          rcases List.mem_cons.1 he with rfl | he
          · exact .inl ⟨rfl, hnode⟩
          · have hdir : (Node.dir inside).WellFormed := hw.get? hinside
            obtain ⟨entry, hmem, rest, hn, hg, hf⟩ := mem_below inside hdir.inside he
            rw [List.nil_append] at hn
            have hentry := Entries.get?_of_mem hdir.own.ascending hmem
            refine .inr ⟨place, inside, hplace, hinside, by simp [hn, hentry, hg], ?_⟩
            intro front hne hfront
            rw [hn] at hfront
            cases front with
            | nil => exact absurd rfl hne
            | cons n front =>
              obtain ⟨rfl, hrest⟩ := List.cons_prefix_cons.1 hfront
              obtain ⟨node, hnode, hkeep⟩ := hf front hrest
              exact ⟨node, by simp [hentry, hnode], hkeep⟩
        · cases hfound
      · cases hfound
        obtain rfl := List.mem_singleton.1 he
        exact .inl ⟨rfl, hnode⟩

/-- What leads to an entry of a walk by `names` are directories, and `keep` lets the walk into
them. -/
theorem enters_above {names : List String} {inside : List (String × Node)} {node : Node}
    (hg : (Node.dir inside).get? names = some node)
    (hkeep : ∀ front, front ≠ [] → front <+: names →
      ∃ node, (Node.dir inside).get? front = some node ∧ keep front node = true)
    (front : List String) (hne : front ≠ []) (hfront : front <+: names.dropLast) :
    ∃ entries, keep front (.dir entries) = true := by
  obtain ⟨last, hlast, rfl⟩ := (Path.prefix_dropLast_iff hne).1 hfront
  obtain ⟨node, hnode, hk⟩ := hkeep front hne (List.prefix_append _ _)
  obtain ⟨entries, hentries⟩ := Node.exists_dir_of_get? hlast hg
  rw [hentries] at hnode
  exact ⟨entries, Option.some.inj hnode ▸ hk⟩

theorem nodup_entries {start : String} {found : List WalkEntry} (hw : disk.root.WellFormed)
    (hfound : entries disk keep start = .ok found) : (found.map (·.names)).Nodup := by
  unfold entries at hfound
  split at hfound
  · cases hfound
  · split at hfound
    · cases hfound
    · split at hfound
      · next inside hinside =>
        have hdir : (Node.dir inside).WellFormed := hw.get? hinside
        dsimp only at hfound
        split at hfound
        · cases hfound
          refine List.nodup_cons.2 ⟨fun hmem => ?_, nodup_below inside hdir.inside hdir.own.ascending⟩
          obtain ⟨e, he, hself⟩ := List.mem_map.1 hmem
          obtain ⟨entry, -, more, hn, -⟩ := mem_below inside hdir.inside he
          simp [hn] at hself
        · cases hfound
      · cases hfound
        simp

end FlowMigration.Walk
