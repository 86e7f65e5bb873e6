import FlowMigration.Package.Scope
import FlowMigration.Proofs.Results

/-!
# What is found below a root

The manifests of a repository and the files of a package, each from the walk that comes to them.

* `ManifestRecord.discover_eq_ok`, `ManifestRecord.load_eq_ok`: when manifests are found, and which.
* `PackageScope.collect_eq_ok`: when the files of a package are found, and which.
* `ManifestRecord.mem_load`, `PackageScope.mem_collect`: where one of them comes from.
-/

namespace FlowMigration

variable {disk : Disk} {root : String}

namespace ManifestRecord

theorem discover_eq_ok {found : List (List String)} :
    discover disk root = .ok found ↔ ∃ walked,
      Walk.entries disk (fun names _ => reaches names) root = .ok walked ∧
        found = (walked.filter fun e =>
          e.node.isFile && lastName? root e.names == some Manifest.fileName).map (·.names) := by
  unfold discover
  cases Walk.entries disk (fun names _ => reaches names) root <;> simp [eq_comm]

theorem load_eq_ok {records : List ManifestRecord} :
    load disk root = .ok records ↔ ∃ found, discover disk root = .ok found ∧
      records = found.map (ofNames disk root) := by
  unfold load
  cases discover disk root <;> simp [eq_comm]

/-- The walk comes to what `discover` has `found`, a file of the name of manifests. -/
theorem mem_discover {found : List (List String)} (h : discover disk root = .ok found)
    {names : List String} (hn : names ∈ found) :
    ∃ walked w, Walk.entries disk (fun names _ => reaches names) root = .ok walked ∧ w ∈ walked ∧
      w.names = names ∧ w.node.isFile = true ∧ lastName? root names = some Manifest.fileName := by
  obtain ⟨walked, hwalk, rfl⟩ := discover_eq_ok.1 h
  obtain ⟨w, hw, rfl⟩ := List.mem_map.1 hn
  obtain ⟨hw, hasked⟩ := List.mem_filter.1 hw
  obtain ⟨hfile, hlast⟩ := Bool.and_eq_true_iff.1 hasked
  exact ⟨walked, w, hwalk, hw, rfl, hfile, beq_iff_eq.1 hlast⟩

/-- A record `r` that was loaded is of a file that the walk comes to. -/
theorem mem_load {records : List ManifestRecord} (h : load disk root = .ok records)
    {r : ManifestRecord} (hr : r ∈ records) :
    ∃ walked w, Walk.entries disk (fun names _ => reaches names) root = .ok walked ∧ w ∈ walked ∧
      w.node.isFile = true ∧ lastName? root w.names = some Manifest.fileName ∧
      r = ofNames disk root w.names := by
  obtain ⟨found, hfound, rfl⟩ := load_eq_ok.1 h
  obtain ⟨names, hnames, rfl⟩ := List.mem_map.1 hr
  obtain ⟨walked, w, hwalk, hw, rfl, hfile, hlast⟩ := mem_discover hfound hnames
  exact ⟨walked, w, hwalk, hw, hfile, hlast, rfl⟩

end ManifestRecord

namespace PackageScope

/-- What `scope` collects are the files of a walk that its rules take in. -/
theorem collect_eq_ok {scope : PackageScope} {e : TopologyEntry} {paths : List String}
    (h : scope.collect disk root e = .ok paths) :
    ∃ rules found, scope.rules = .ok rules ∧
      Walk.entries disk
        (reaches (directory root e)
          (e.excludePaths.map fun path => Path.components (Path.join root path)))
        (directory root e) = .ok found ∧
      paths = (((((found.filter (·.node.isFile)).map fun w =>
        Path.joinAll (directory root e) w.names).filter (takesIn rules root)).map
          (Path.relativeUnix root)).mergeSort (· ≤ ·)) := by
  unfold collect at h
  obtain ⟨rules, hrules, h⟩ := bind_eq_ok_iff.1 h
  obtain ⟨found, hfound, h⟩ := bind_eq_ok_iff.1 h
  exact ⟨rules, found, hrules, mapError_eq_ok_iff.1 hfound, (Except.ok.inj h).symm⟩

theorem mem_collect {scope : PackageScope} {e : TopologyEntry} {paths : List String} {p : String}
    (h : scope.collect disk root e = .ok paths) (hp : p ∈ paths) :
    ∃ rules found w, scope.rules = .ok rules ∧
      Walk.entries disk
        (reaches (directory root e)
          (e.excludePaths.map fun path => Path.components (Path.join root path)))
        (directory root e) = .ok found ∧
      w ∈ found ∧ w.node.isFile = true ∧
      takesIn rules root (Path.joinAll (directory root e) w.names) = true ∧
      p = Path.relativeUnix root (Path.joinAll (directory root e) w.names) := by
  obtain ⟨rules, found, hr, hf, rfl⟩ := collect_eq_ok h
  rw [List.mem_mergeSort] at hp
  obtain ⟨file, hfile, rfl⟩ := List.mem_map.1 hp
  obtain ⟨hfile, htakes⟩ := List.mem_filter.1 hfile
  obtain ⟨w, hw, rfl⟩ := List.mem_map.1 hfile
  obtain ⟨hw, hisFile⟩ := List.mem_filter.1 hw
  exact ⟨rules, found, w, hr, hf, hw, hisFile, htakes, rfl⟩

end PackageScope

end FlowMigration
