import FlowMigration.Proofs.Migration.Folders
import FlowMigration.Proofs.Migration.Packages
import FlowMigration.Proofs.Topology.Siblings

/-!
# The order of the packages of a repository

The manifests of a repository are found in the order of the names that lead to them. So its packages
come in post-order, the folders inside a folder by the bytes of their names, and what the globs of a
package leave out is listed in this order.

* `Topology.ByName`: the order of folders by name; `Topology.postOrder_of_ascending` has it from the
  order of the manifests.
* `PackageScope.LeavesOutInside`: a list of ignores is the one for the packages inside a place,
  which depends on nothing but the directories with manifests (`LeavesOutInside.unique`).
* `Trail.left`: the configuration that a migration has put together. It describes what was visited
  (`Trail.Of.describes_left`) and is what was written last (`Trail.Of.saves_left`).
* `Migration.packages_in_order`: which package comes first, what is found in a repository and what a
  migration leaves in its configuration.
-/

namespace FlowMigration

namespace Topology

open FolderArena (firstThrough firstThrough_lt)

/-! ## Folders by name -/

/-- The folders `x` and `y` inside a folder in the order of the bytes of their names. -/
def ByName (_ : List String) (x y : String) : Prop := Glob.bytes x < Glob.bytes y

theorem ByName.asymm (front : List String) (x y : String) (h : ByName front x y) :
    ¬ ByName front y x := List.lt_asymm h

variable {records : List ManifestRecord}

/-- The first manifest that leads through the folder at `place`, if one does. -/
theorem exists_first {place : List String} (h : ∃ r ∈ records, place <+: r.dirSegments) :
    ∃ hlt : firstThrough (records.map (·.dirSegments)) place < records.length,
      place <+: (records[firstThrough (records.map (·.dirSegments)) place]).dirSegments := by
  have hlt : firstThrough (records.map (·.dirSegments)) place <
      (records.map (·.dirSegments)).length := by
    refine firstThrough_lt.2 ?_
    obtain ⟨r, hr, hstart⟩ := h
    exact ⟨r.dirSegments, List.mem_map_of_mem hr, hstart⟩
  have hfirst := List.findIdx_getElem (w := hlt)
  refine ⟨by rwa [List.length_map] at hlt, ?_⟩
  simpa [List.isPrefixOf_iff_prefix, firstThrough] using hfirst

/-- **Where the manifests of `records` are in order**, folders that they lead to are by name. -/
theorem byName_of_byFirst
    (hasc : (records.map fun r => Path.segments r.path).Pairwise (· < ·)) {front : List String}
    {x y : String} (hx : ∃ r ∈ records, front ++ [x] <+: r.dirSegments)
    (hy : ∃ r ∈ records, front ++ [y] <+: r.dirSegments) (h : ByFirst records front x y) :
    ByName front x y := by
  obtain ⟨hi, hxdir⟩ := exists_first hx
  obtain ⟨hj, hydir⟩ := exists_first hy
  have hlt := List.pairwise_iff_getElem.1 (List.pairwise_map.1 hasc) _ _ hi hj h
  -- both paths go on behind the folder
  have hpath {r : ManifestRecord} {z : String} (hz : front ++ [z] <+: r.dirSegments) :
      ∃ more, Path.segments r.path = front ++ z :: more := by
    obtain ⟨more, hmore⟩ := hz.trans (List.dropLast_prefix (Path.segments r.path))
    exact ⟨more, by rw [← hmore, List.append_assoc, List.singleton_append]⟩
  obtain ⟨xs, hxs⟩ := hpath hxdir
  obtain ⟨ys, hys⟩ := hpath hydir
  rw [hxs, hys] at hlt
  rcases Std.lt_trichotomy x y with hxy | rfl | hyx
  · exact Text.bytes_lt hxy
  · exact absurd h (Nat.lt_irrefl _)
  · exact absurd hlt (List.lt_asymm (Walk.append_cons_lt hyx))

/-- **The packages of a repository are in `PostOrder`**, the folders inside a folder by name. -/
theorem postOrder_of_ascending
    (hasc : (records.map fun r => Path.segments r.path).Pairwise (· < ·)) :
    ((build records).map (·.parts)).Pairwise (PostOrder ByName) := by
  refine (postOrder_build records).imp_of_mem fun {a b} ha hb hab => hab.imp_right ?_
  rintro ⟨front, x, y, as, bs, rfl, rfl, hxy⟩
  have hdir {z : String} {zs : List String}
      (hz : front ++ z :: zs ∈ (build records).map (·.parts)) :
      ∃ r ∈ records, front ++ [z] <+: r.dirSegments := by
    obtain ⟨e, he, hparts⟩ := List.mem_map.1 hz
    obtain ⟨hmem, hdir⟩ := mem_records_of_mem_build he
    exact ⟨e.record, hmem, zs, by rw [hdir, hparts, List.append_assoc, List.singleton_append]⟩
  exact ⟨front, x, y, as, bs, rfl, rfl, byName_of_byFirst hasc (hdir ha) (hdir hb) hxy⟩

/-- **What a package excludes** (`e.excludes`) is in `PostOrder` too. -/
theorem postOrder_excludes
    (hasc : (records.map fun r => Path.segments r.path).Pairwise (· < ·)) {e : TopologyEntry}
    (he : e ∈ build records) : e.excludes.Pairwise (PostOrder ByName) := by
  obtain ⟨before, after, hb⟩ := List.append_of_mem he
  obtain ⟨others, inside, rfl, hex, -, -⟩ := nested_build records before e after hb
  have hpost := postOrder_of_ascending hasc
  rw [hb, List.map_append, List.map_append, List.append_assoc] at hpost
  rw [hex]
  exact (List.pairwise_append.1 (List.pairwise_append.1 hpost).2.1).1

theorem mem_excludes_iff {e : TopologyEntry} (he : e ∈ build records) (place : List String) :
    place ∈ e.excludes ↔ Encloses e.parts place ∧ ∃ r ∈ records, r.dirSegments = place := by
  constructor
  · intro hplace
    obtain ⟨hin, g, hg, rfl⟩ := exists_of_mem_excludes he hplace
    exact ⟨hin, g.record, mem_records_of_mem_build hg⟩
  · rintro ⟨hin, r, hr, rfl⟩
    obtain ⟨g, hg, hparts⟩ := exists_entry hr
    rw [← hparts] at hin ⊢
    exact mem_excludes he hg hin

theorem mem_parts_iff {place : List String} :
    place ∈ (build records).map (·.parts) ↔ ∃ r ∈ records, r.dirSegments = place := by
  rw [List.mem_map]
  constructor
  · rintro ⟨e, he, rfl⟩
    exact ⟨e.record, mem_records_of_mem_build he⟩
  · rintro ⟨r, hr, rfl⟩
    exact exists_entry hr

end Topology

open FlowMigration.Topology (PostOrder ByName ByFirst Encloses build)

/-! ## What is left out -/

/-- The manifests of `records` and `records'` have the same paths. -/
def ManifestRecord.SamePaths (records records' : List ManifestRecord) : Prop :=
  ∀ path, (∃ r ∈ records, r.path = path) ↔ ∃ r ∈ records', r.path = path

theorem ManifestRecord.SamePaths.dirSegments {records records' : List ManifestRecord}
    (h : SamePaths records records') (place : List String) :
    (∃ r ∈ records, r.dirSegments = place) ↔ ∃ r ∈ records', r.dirSegments = place := by
  have hdir {records records' : List ManifestRecord} (h : SamePaths records records') :
      (∃ r ∈ records, r.dirSegments = place) → ∃ r ∈ records', r.dirSegments = place := by
    rintro ⟨r, hr, rfl⟩
    obtain ⟨r', hr', hpath⟩ := (h r.path).1 ⟨r, hr, rfl⟩
    exact ⟨r', hr', by rw [ManifestRecord.dirSegments, hpath, ManifestRecord.dirSegments]⟩
  exact ⟨hdir h, hdir fun path => (h path).symm⟩

/-- The `ignores` leave out dependencies and then the packages inside the place `parts`: one glob
for each directory with a manifest there, in `PostOrder` with the folders inside a folder by
name. -/
def PackageScope.LeavesOutInside (records : List ManifestRecord) (parts : List String)
    (ignores : List String) : Prop :=
  ∃ places : List (List String), places.Pairwise (PostOrder ByName) ∧
    (∀ place, place ∈ places ↔ Encloses parts place ∧ ∃ r ∈ records, r.dirSegments = place) ∧
    ignores = defaultIgnores ++ places.map fun place => Path.ofSegments place ++ "/**"

theorem PackageScope.leavesOutInside {records : List ManifestRecord}
    (hasc : (records.map fun r => Path.segments r.path).Pairwise (· < ·)) {e : TopologyEntry}
    (he : e ∈ build records) (sources : String) :
    LeavesOutInside records e.parts (ofEntry e sources).ignores := by
  refine ⟨e.excludes, Topology.postOrder_excludes hasc he, Topology.mem_excludes_iff he, ?_⟩
  rw [ofEntry, TopologyEntry.excludePaths, List.map_map]
  rfl

/-- **The `ignores`** depend on nothing but the paths of the manifests. -/
theorem PackageScope.LeavesOutInside.unique {records records' : List ManifestRecord}
    {parts ignores ignores' : List String} (hsame : ManifestRecord.SamePaths records records')
    (h : LeavesOutInside records parts ignores) (h' : LeavesOutInside records' parts ignores') :
    ignores' = ignores := by
  obtain ⟨places, hpost, hmem, rfl⟩ := h
  obtain ⟨places', hpost', hmem', rfl⟩ := h'
  rw [Topology.eq_of_postOrder ByName.asymm hpost hpost' fun place => by
    rw [hmem, hmem', hsame.dirSegments]]

/-- **The packages that `build` comes to** depend on nothing but the paths of the manifests. -/
theorem Topology.parts_congr {records records' : List ManifestRecord}
    (hasc : (records.map fun r => Path.segments r.path).Pairwise (· < ·))
    (hasc' : (records'.map fun r => Path.segments r.path).Pairwise (· < ·))
    (hsame : ManifestRecord.SamePaths records records') :
    (build records').map (·.parts) = (build records).map (·.parts) :=
  eq_of_postOrder ByName.asymm (postOrder_of_ascending hasc') (postOrder_of_ascending hasc)
    fun place => by rw [mem_parts_iff, mem_parts_iff, hsame.dirSegments]

open ConfigStore (Since Kept fileName openAt)

/-! ## What a migration leaves -/

/-- A store that `Saves` to a disk over one that is `Kept` is kept there. -/
theorem ConfigStore.Kept.saves {prettier recast : Bool} {root : String} {place : List String}
    {disk disk' : Disk} {store store' : ConfigStore} (h : Kept prettier recast root place disk store)
    (hs : store'.Saves disk disk') (hpath : store'.path = store.path)
    (hother : store'.config.other = store.config.other) :
    Kept prettier recast root place disk' store' := by
  obtain ⟨p, q, hsave, rfl, rfl⟩ := hs
  rw [ConfigStore.save_eq h.savable (hpath.trans h.path)] at hsave
  rw [← (Prod.mk.inj hsave).2]
  exact h.saved hpath hother

namespace Visited

variable {root sources : String} {collaborators : Option Collaborators} {store : ConfigStore}
  {disk last : Disk} {visits : List Visit}

/-- **The configuration that is saved last** has all packages of `visits` recorded. -/
theorem saves_recordAll (h : Visited root sources collaborators store disk visits last) :
    visits = [] ∧ last = disk ∨ ∃ before,
      (store.recordAll (visits.map (·.entry)) (visits.map (·.scan))).Saves before last := by
  induction h with
  | done store disk => exact .inl ⟨rfl, rfl⟩
  | @next store v after last rest seen saved more ih =>
    refine .inr ?_
    rcases ih with ⟨rfl, rfl⟩ | hbefore
    · exact ⟨v.disk, saved⟩
    · exact hbefore

/-- The last disk keeps it, if the first one keeps `store`. -/
theorem kept_recordAll {prettier recast : Bool} {place : List String}
    (h : Visited root sources collaborators store disk visits last)
    (hkept : Kept prettier recast root place disk store) :
    Kept prettier recast root place last
      (store.recordAll (visits.map (·.entry)) (visits.map (·.scan))) := by
  induction h with
  | done store disk => exact hkept
  | next seen saved more ih => exact ih (hkept.saves saved rfl rfl)

end Visited

namespace Trail

variable {t : Trail} {settings : Settings} {collaborators : Option Collaborators}
  {disk last : Disk} {report : Report}

/-- The configuration that a migration has put together: `Trail.store` without the packages that are
gone, and with all that were visited. -/
def left (t : Trail) : ConfigStore :=
  (t.store.retain t.live).recordAll (t.visits.map (·.entry)) (t.visits.map (·.scan))

/-- **What was written last** is `Trail.left`, if there was a package at all. -/
theorem Of.saves_left (h : t.Of settings collaborators disk report last)
    (hne : Topology.build t.records ≠ []) : ∃ before, t.left.Saves before last := by
  obtain ⟨start, -, hvisited⟩ := h.visited
  rcases hvisited.saves_recordAll with ⟨hnil, -⟩ | hbefore
  · rw [← h.entries, hnil] at hne
    exact absurd rfl hne
  · exact hbefore

/-- **The packages of `Trail.left`** are described by what was visited. -/
theorem Of.describes_left (h : t.Of settings collaborators disk report last)
    (hlegal : disk.Legal) :
    Describes t.left.config.packages settings.sources (build t.records)
      (t.visits.map (·.scan)) := by
  have hlength : (t.visits.map (·.scan)).length = (build t.records).length := by
    rw [← h.entries, List.length_map, List.length_map]
  rw [left, live, h.entries]
  refine describes_recordAll t.store hlength
    (Topology.nodup_keys (h.keepsFolders hlegal).wellFormed h.records) fun f hf => ?_
  rw [← h.entries, List.zip_map'] at hf
  obtain ⟨v, hv, rfl⟩ := List.mem_map.1 hf
  exact ⟨v.disk, t.root, (h.seen v hv).scanned⟩

/-- **The ignores in `Trail.left`** leave out the packages inside. -/
theorem Of.leavesOutInside (h : t.Of settings collaborators disk report last)
    (hlegal : disk.Legal)
    (hplain : ∀ node, disk.node t.root = .ok node → node.Throughout NoBackslash)
    {e : TopologyEntry} (he : e ∈ build t.records) :
    ∃ package, t.left.config.packages.get? e.key = some package ∧
      PackageScope.LeavesOutInside t.records e.parts package.ignores := by
  have hmem := he
  rw [← h.entries] at hmem
  obtain ⟨v, hv, rfl⟩ := List.mem_map.1 hmem
  have hfound : (v.entry, v.scan) ∈ (build t.records).zip (t.visits.map (·.scan)) := by
    rw [← h.entries, List.zip_map']
    exact List.mem_map_of_mem hv
  exact ⟨_, (h.describes_left hlegal).values _ hfound,
    PackageScope.leavesOutInside (h.ascending hlegal hplain) he settings.sources⟩

/-- **Opened again**, the configuration is `Trail.left`, if nothing stood where it was written first
and the one that was there held no foreign doubles. -/
theorem Of.opens_left (h : t.Of settings collaborators disk report last) (hlegal : disk.Legal)
    (hfree : (disk.entry (report.configPath ++ ".tmp")).isOk = false)
    (hwhole : ∀ text, disk.read report.configPath = .ok text → ConfigStore.WholeText text) :
    ∃ place, Since place disk t.opened ∧
      (openAt t.root (.fresh settings.prettier settings.recast)).Runs last (.ok t.left) last := by
  obtain ⟨place, -, hl, -⟩ := h.exists_home hlegal
  have hpath : report.configPath = Path.join t.root fileName := by
    rw [h.reported, ← h.path_store]
  rw [hpath] at hfree hwhole
  obtain ⟨p, q, hopen, rfl, hq⟩ := h.opened
  obtain ⟨place, -, hsince, -, hkept⟩ := ConfigStore.exists_kept hlegal h.root
    (Disk.locate_eq_ok.1 hl).2.1 hfree hwhole hopen
  rw [hq] at hsince hkept
  obtain ⟨start, hstart, hvisited⟩ := h.visited
  have hbegun : Kept settings.prettier settings.recast t.root place start
      (t.store.retain t.live) := by
    split at hstart
    · next hstale => rwa [hstart, ConfigStore.retain_of_stale hstale]
    · exact hkept.saves hstart rfl rfl
  exact ⟨place, hsince, (hvisited.kept_recordAll hbegun).opens⟩

end Trail

namespace Migration

/-- **The order of packages.** Of two packages of which none lies inside the other that one comes
first through whose folder, where the ways to them part, a manifest led first (`ByFirst`). In a
repository whose names hold no backslash the packages so come in `PostOrder`, the folders inside a
folder by the bytes of their names (`ByName`); the globs of each list the packages inside it in this
order (`LeavesOutInside`); and all this depends on nothing but the paths of the manifests. The
configuration that a migration writes last, `Trail.left`, has these lists; it is also what is opened
again where nothing stood at its temporary path and the file before held no foreign doubles. -/
theorem packages_in_order :
    (∀ (records : List ManifestRecord) (i j : Nat) (e f : TopologyEntry),
      (build records)[i]? = some e → (build records)[j]? = some f → ¬ e.parts <+: f.parts →
      ¬ f.parts <+: e.parts →
      ∃ front x y es fs, e.parts = front ++ x :: es ∧ f.parts = front ++ y :: fs ∧ x ≠ y ∧
        (i < j ↔ ByFirst records front x y)) ∧
    (∀ (disk : Disk) (root : String) (records : List ManifestRecord), disk.root.WellFormed →
      (∀ node, disk.node root = .ok node → node.Throughout NoBackslash) →
      disk.isDir root = true → ManifestRecord.load disk root = .ok records →
      ((build records).map (·.parts)).Pairwise (PostOrder ByName) ∧
      (∀ e ∈ build records, ∀ sources,
        PackageScope.LeavesOutInside records e.parts (PackageScope.ofEntry e sources).ignores) ∧
      ∀ (disk' : Disk) (root' : String) (records' : List ManifestRecord),
        disk'.root.WellFormed →
        (∀ node, disk'.node root' = .ok node → node.Throughout NoBackslash) →
        disk'.isDir root' = true → ManifestRecord.load disk' root' = .ok records' →
        ManifestRecord.SamePaths records records' →
        (build records').map (·.parts) = (build records).map (·.parts) ∧
        ∀ e ∈ build records, ∀ e' ∈ build records', e'.parts = e.parts → ∀ sources,
          (PackageScope.ofEntry e' sources).ignores =
            (PackageScope.ofEntry e sources).ignores) ∧
    ∀ (settings : Settings) (collaborators : Option Collaborators) (disk : Disk) (report : Report)
      (p : Progress), disk.Legal →
      (∀ node, disk.node report.root = .ok node → node.Throughout NoBackslash) →
      plan settings collaborators { disk } = (.ok report, p) →
      ∃ t : Trail, t.Of settings collaborators disk report p.disk ∧
        (build t.records ≠ [] → ∃ before, t.left.Saves before p.disk) ∧
        (∀ e ∈ build t.records, ∃ package, t.left.config.packages.get? e.key = some package ∧
          PackageScope.LeavesOutInside t.records e.parts package.ignores) ∧
        ((disk.entry (report.configPath ++ ".tmp")).isOk = false →
          (∀ text, disk.read report.configPath = .ok text → ConfigStore.WholeText text) →
          ∃ place, Since place disk t.opened ∧
            ManifestRecord.load t.opened report.root = .ok t.records ∧
            (openAt report.root (.fresh settings.prettier settings.recast)).Runs p.disk
              (.ok ⟨report.configPath, t.left.config⟩) p.disk) := by
  refine ⟨?_, ?_, ?_⟩
  · intro records i j e f he hf hef hfe
    obtain ⟨front, x, y, es, fs, ha, hb, hne⟩ := Topology.exists_parting hef hfe
    exact ⟨front, x, y, es, fs, ha, hb, hne, Topology.lt_iff_byFirst he hf ha hb hne⟩
  · intro disk root records hw hplain hdir hload
    have hasc := ManifestRecord.ascending_of_plain hw hplain hdir hload
    refine ⟨Topology.postOrder_of_ascending hasc,
      fun e he sources => PackageScope.leavesOutInside hasc he sources, ?_⟩
    intro disk' root' records' hw' hplain' hdir' hload' hsame
    have hasc' := ManifestRecord.ascending_of_plain hw' hplain' hdir' hload'
    refine ⟨Topology.parts_congr hasc hasc' hsame, ?_⟩
    intro e he e' he' hparts sources
    have hleft := PackageScope.leavesOutInside hasc' he' sources
    rw [hparts] at hleft
    exact (PackageScope.leavesOutInside hasc he sources).unique hsame hleft
  · intro settings collaborators disk report p hlegal hplain hrun
    obtain ⟨t, ht, -⟩ := exists_trail_of_plan hrun
    obtain ⟨hroot, hpath⟩ : report.root = t.root ∧ report.configPath = t.left.path := by
      rw [ht.reported, Trail.left, ConfigStore.recordAll_eq]
      exact ⟨rfl, rfl⟩
    rw [hroot] at hplain
    refine ⟨t, ht, ht.saves_left, fun e he => ht.leavesOutInside hlegal hplain he, ?_⟩
    intro hfree hwhole
    obtain ⟨place, hsince, hopens⟩ := ht.opens_left hlegal hfree hwhole
    rw [hroot, hpath]
    exact ⟨place, hsince, ht.records, hopens⟩

/-- The package of `a/x` comes before that of `a-b`, and the configuration that a migration writes
is in this order. -/
theorem packages_in_order_repeated :
    (∃ records, ManifestRecord.load ManifestRecord.repeatedRepository "/" = .ok records ∧
      (build records).map (·.parts) = [["a", "x"], ["a-b"], []] ∧
      ((build records).map (·.parts)).Pairwise (PostOrder ByName) ∧
      ByFirst records [] "a" "a-b") ∧
    ∃ report p opened records config, plan { root := some "/" } none
        { disk := ManifestRecord.repeatedRepository } = (.ok report, p) ∧
      ManifestRecord.load opened "/" = .ok records ∧
      (∃ before, ConfigStore.Saves ⟨"/flow-ts-config.json", config⟩ before p.disk) ∧
      (openAt "/" (.fresh true true)).Runs p.disk (.ok ⟨"/flow-ts-config.json", config⟩) p.disk ∧
      ∀ e ∈ build records, ∃ package, config.packages.get? e.key = some package ∧
        PackageScope.LeavesOutInside records e.parts package.ignores := by
  have hlegal : ManifestRecord.repeatedRepository.Legal := by decide +kernel
  have hplain : ∀ node, ManifestRecord.repeatedRepository.node "/" = .ok node →
      node.Throughout NoBackslash := fun _ => Disk.throughout_of_node (by decide +kernel)
  obtain ⟨hparting, hloaded, hplanned⟩ := packages_in_order
  constructor
  · have hbuild : (ManifestRecord.load ManifestRecord.repeatedRepository "/").toOption.map
        (fun records => (build records).map (·.parts)) = some [["a", "x"], ["a-b"], []] := by
      decide +kernel
    obtain ⟨records, hload, hbuild⟩ := map_toOption_eq_some_iff.1 hbuild
    obtain ⟨e, more, he, hpartsE, hmore⟩ := List.map_eq_cons_iff.1 hbuild
    obtain ⟨f, rest, rfl, hpartsF, -⟩ := List.map_eq_cons_iff.1 hmore
    obtain ⟨front, x, y, es, fs, hfe, hff, hne, hiff⟩ := hparting records 0 1 e f (by rw [he]; rfl)
      (by rw [he]; rfl) (by rw [hpartsE, hpartsF]; decide) (by rw [hpartsE, hpartsF]; decide)
    rw [hpartsE] at hfe
    rw [hpartsF] at hff
    obtain ⟨rfl, rfl, rfl⟩ : front = [] ∧ x = "a" ∧ y = "a-b" := by
      cases front with
      | nil => exact ⟨rfl, (List.cons.inj hfe).1.symm, (List.cons.inj hff).1.symm⟩
      | cons b front => exact absurd (List.cons.inj hff).2 (by simp)
    exact ⟨records, hload, hbuild,
      (hloaded _ _ records hlegal.1 hplain (by decide +kernel) hload).1, hiff.1 (by decide)⟩
  · have hfacts : (plan { root := some "/" } none { disk := ManifestRecord.repeatedRepository }
        ).1.toOption.map (fun report => (report.root, report.configPath, report.packages.length)) =
          some ("/", "/flow-ts-config.json", 3) := by decide +kernel
    have hfree : (ManifestRecord.repeatedRepository.entry ("/flow-ts-config.json" ++ ".tmp")).isOk =
        false := by decide +kernel
    have hnone : ∀ text ∈ (ManifestRecord.repeatedRepository.read "/flow-ts-config.json").toOption,
        ConfigStore.WholeText text := by decide +kernel
    obtain ⟨report, p, hrun, hfields⟩ := exists_of_map_toOption hfacts
    obtain ⟨hroot, hrest⟩ := Prod.mk.inj hfields
    obtain ⟨hpath, hlength⟩ := Prod.mk.inj hrest
    rw [← hroot] at hplain
    rw [← hpath] at hfree hnone
    obtain ⟨t, ht, hsaves, hall, hopens⟩ :=
      hplanned { root := some "/" } none _ report p hlegal hplain hrun
    obtain ⟨place, -, hload, hopens⟩ := hopens hfree fun text hread => hnone text (by rw [hread]; rfl)
    have hne : build t.records ≠ [] := by
      intro hnil
      rw [ht.packages, List.length_map, ← List.length_map (·.entry), ht.entries, hnil] at hlength
      cases hlength
    have hleft : t.left = ⟨"/flow-ts-config.json", t.left.config⟩ := by
      rw [← hpath, ht.reported, Trail.left, ConfigStore.recordAll_eq]
      rfl
    rw [hroot] at hload hopens
    rw [hpath] at hopens
    refine ⟨report, p, t.opened, t.records, t.left.config, hrun, hload, ?_, hopens, hall⟩
    rw [← hleft]
    exact hsaves hne

end Migration

end FlowMigration
