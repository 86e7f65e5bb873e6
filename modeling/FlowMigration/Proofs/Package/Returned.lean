import FlowMigration.Proofs.Disk.Change
import FlowMigration.Proofs.Package.Ownership

/-!
# Paths that are returned

The walks for manifests and for sources write down the files that they visit by paths from the root
of the repository. Such a path is read again later: joined to the root it has to lead to the file
that was visited.

* `Returned`: a path, the file that a walk visited when it wrote it down, and what that file holds.
* `returned_leads_back`: the path leads back to the file, and to no other one, if no name in the
  repository holds a backslash.
* `not_returned_leads_back_of_backslash`: otherwise it may lead nowhere, or to another file.
-/

namespace FlowMigration

/-- **A relative path leads back**, joined to the `base` that it is relative to. -/
theorem Path.join_relativeUnix_joinAll {base : String} {names : List String} (hb : base ≠ "")
    (hne : names ≠ []) (h : ∀ n ∈ names, IsName n) (hback : ∀ n ∈ names, '\\' ∉ n.toList) :
    join base (relativeUnix base (joinAll base names)) = joinAll base names := by
  rw [relativeUnix_joinAll hb h hback, joinAll_eq_join hb hne h]

namespace PackageScope

variable {disk : Disk} {root : String}

/-- A walk below `root` visited a file and returned a path for it: the path, the file, and what the
file holds. -/
inductive Returned (disk : Disk) (root : String) : String → String → ByteArray → Prop
  | manifest {found : List WalkEntry} {w : WalkEntry} {content : ByteArray}
      (walk : Walk.entries disk (fun names _ => ManifestRecord.reaches names) root = .ok found)
      (visited : w ∈ found) (isFile : w.node = .file content)
      (asked : ManifestRecord.lastName? root w.names = some Manifest.fileName) :
      Returned disk root (ManifestRecord.ofNames disk root w.names).path
        (Path.joinAll root w.names) content
  | source {records : List ManifestRecord} {e : TopologyEntry} {scope : PackageScope}
      {rules : List IgnoreRule} {found : List WalkEntry} {w : WalkEntry} {content : ByteArray}
      (load : ManifestRecord.load disk root = .ok records) (package : e ∈ Topology.build records)
      (read : scope.rules = .ok rules)
      (walk : Walk.entries disk (reaches (directory root e)
          (e.excludePaths.map fun path => Path.components (Path.join root path)))
        (directory root e) = .ok found)
      (visited : w ∈ found) (isFile : w.node = .file content)
      (asked : takesIn rules root (Path.joinAll (directory root e) w.names) = true) :
      Returned disk root (Path.relativeUnix root (Path.joinAll (directory root e) w.names))
        (Path.joinAll (directory root e) w.names) content

theorem exists_content_of_isFile {node : Node} (h : node.isFile = true) :
    ∃ content, node = .file content := by
  cases node with
  | file content => exact ⟨content, rfl⟩
  | dir inside => cases h
  | link target => cases h

/-- The paths of the manifests that are loaded are `Returned`. -/
theorem exists_returned_of_load {records : List ManifestRecord}
    (hload : ManifestRecord.load disk root = .ok records) {r : ManifestRecord} (hr : r ∈ records) :
    ∃ file content, Returned disk root r.path file content := by
  obtain ⟨found, w, hwalk, hw, hfile, hlast, rfl⟩ := ManifestRecord.mem_load hload hr
  obtain ⟨content, hcontent⟩ := exists_content_of_isFile hfile
  exact ⟨_, content, .manifest hwalk hw hcontent hlast⟩

/-- The paths that `scope` collects are `Returned`. -/
theorem exists_returned_of_collect {records : List ManifestRecord}
    (hload : ManifestRecord.load disk root = .ok records) {e : TopologyEntry}
    (he : e ∈ Topology.build records) {scope : PackageScope} {paths : List String}
    (h : scope.collect disk root e = .ok paths) {p : String} (hp : p ∈ paths) :
    ∃ file content, Returned disk root p file content := by
  obtain ⟨rules, found, w, hrules, hwalk, hw, hfile, htakes, rfl⟩ := mem_collect h hp
  obtain ⟨content, hcontent⟩ := exists_content_of_isFile hfile
  exact ⟨_, content, .source hload he hrules hwalk hw hcontent htakes⟩

theorem kindAt_of_isDir (h : disk.isDir root = true) :
    ∃ place, disk.locate root = .ok place ∧ disk.root.kindAt place = some .dir := by
  unfold Disk.isDir Disk.node at h
  cases hplace : disk.locate root with
  | error error => simp [hplace] at h
  | ok place =>
    refine ⟨place, rfl, ?_⟩
    cases hnode : disk.root.get? place with
    | none => simp [hplace, hnode] at h
    | some node =>
      cases node with
      | dir inside => exact Node.kindAt_eq_dir.2 ⟨inside, hnode⟩
      | file content => simp [hplace, hnode] at h
      | link target => simp [hplace, hnode] at h

theorem folder_root (h : disk.isDir root = true) : Folder disk root [] := by
  obtain ⟨place, hplace, -⟩ := kindAt_of_isDir h
  exact ⟨⟨place, hplace, fun hne => absurd rfl hne⟩, by simp, by simp⟩

section
variable (hw : disk.root.WellFormed)
  (hplain : ∀ node, disk.node root = .ok node → node.Throughout NoBackslash)
  (hdir : disk.isDir root = true)
include hw hplain hdir

/-- What a walk visits below a `Folder` of the repository. -/
theorem leads_back_of_walk {parts : List String} (hfolder : Folder disk root parts)
    {keep : List String → Node → Bool} {found : List WalkEntry}
    (hwalk : Walk.entries disk keep (Path.joinAll root parts) = .ok found) {w : WalkEntry}
    (hmem : w ∈ found) {content : ByteArray} (hfile : w.node = .file content) :
    Path.join root (Path.relativeUnix root (Path.joinAll (Path.joinAll root parts) w.names)) =
        Path.joinAll (Path.joinAll root parts) w.names ∧
      disk.readBytes (Path.joinAll (Path.joinAll root parts) w.names) = .ok content := by
  obtain ⟨place, hplace, hinner⟩ := hfolder.located
  have hkind : disk.root.kindAt (place ++ parts) = some .dir := by
    by_cases hparts : parts = []
    · obtain ⟨place', hplace', hroot⟩ := kindAt_of_isDir hdir
      obtain rfl : place = place' := Except.ok.inj (hplace.symm.trans hplace')
      rwa [hparts, List.append_nil]
    · exact hinner hparts
  have hstart : disk.locate (Path.joinAll root parts) = .ok (place ++ parts) :=
    Disk.locate_joinAll hplace hfolder.legal (.inl hkind)
  obtain ⟨inside, hinside⟩ := Node.kindAt_eq_dir.1 hkind
  rcases Walk.mem_entries hw hwalk hmem with ⟨-, hentry⟩ | ⟨place', inside', hp', hin, hg, -⟩
  · -- the walk starts at a directory
    rw [hfile] at hentry
    obtain ⟨here, hl, hfound⟩ := Disk.locate_of_entry hw hentry
    rw [hstart] at hl
    cases hl
    rw [hinside] at hfound
    cases hfound
  · rw [hstart] at hp'
    cases hp'
    have hnode : disk.root.get? (place ++ (parts ++ w.names)) = some (.file content) := by
      rw [← List.append_assoc, Node.get?_append, hin, Option.bind_some, hg, hfile]
    have hnames : parts ++ w.names ≠ [] := by
      intro hnil
      rw [hnil, ← (List.append_eq_nil_iff.1 hnil).1, hinside] at hnode
      cases hnode
    obtain ⟨hlegal, hback⟩ := names_below_root hw hplain hplace hnode
    have hisName : ∀ n ∈ parts ++ w.names, Path.IsName n := fun n hn => (hlegal n hn).toIsName
    rw [← Path.joinAll_append]
    refine ⟨Path.join_relativeUnix_joinAll hfolder.root_ne_empty hnames hisName hback, ?_⟩
    have hstands : Disk.Stands disk.root (place ++ (parts ++ w.names)) :=
      .inr (Node.kindAt_eq_file.2 ⟨content, hnode⟩)
    exact Disk.readBytes_of_file (Disk.locate_joinAll hplace hlegal hstands) hnode

theorem Returned.leads_back {p file : String} {content : ByteArray}
    (h : Returned disk root p file content) :
    Path.join root p = file ∧ disk.readBytes file = .ok content := by
  cases h with
  | manifest hwalk hmem hfile hasked =>
    exact leads_back_of_walk hw hplain hdir (folder_root hdir) hwalk hmem hfile
  | source hload he hrules hwalk hmem hfile htakes =>
    have hfolder := package_folder hw hplain hload he
    rw [directory_eq hfolder] at hwalk ⊢
    exact leads_back_of_walk hw hplain hdir hfolder hwalk hmem hfile

/-! ## Main statement -/

/-- **Returned paths lead back**, in a repository whose names hold no backslash: joined to the root,
the path of a manifest that is loaded or of a source that is collected is the `file` that the walk
visited (`Returned`), which can be read there; so two files never share a path. -/
theorem returned_leads_back :
    (∀ records, ManifestRecord.load disk root = .ok records →
      (∀ r ∈ records, ∃ file content, Returned disk root r.path file content) ∧
      ∀ e ∈ Topology.build records, ∀ (scope : PackageScope) paths,
        scope.collect disk root e = .ok paths →
          ∀ p ∈ paths, ∃ file content, Returned disk root p file content) ∧
    (∀ p file content, Returned disk root p file content →
      Path.join root p = file ∧ disk.readBytes (Path.join root p) = .ok content) ∧
    ∀ p file content file' content', Returned disk root p file content →
      Returned disk root p file' content' → file = file' ∧ content = content' := by
  refine ⟨fun records hload => ⟨?_, ?_⟩, ?_, ?_⟩
  · intro r hr
    exact exists_returned_of_load hload hr
  · intro e he scope paths hpaths p hp
    exact exists_returned_of_collect hload he hpaths hp
  · intro p file content h
    obtain ⟨hjoin, hread⟩ := h.leads_back hw hplain hdir
    exact ⟨hjoin, hjoin ▸ hread⟩
  · intro p file content file' content' h h'
    obtain ⟨hjoin, hread⟩ := h.leads_back hw hplain hdir
    obtain ⟨hjoin', hread'⟩ := h'.leads_back hw hplain hdir
    obtain rfl : file = file' := hjoin.symm.trans hjoin'
    exact ⟨rfl, Except.ok.inj (hread.symm.trans hread')⟩

end

/-- The manifests of a repository with a package inside another are read again. -/
theorem returned_leads_back_nested :
    nestedRepository.root.WellFormed ∧
      (∀ node, nestedRepository.node "/" = .ok node → node.Throughout NoBackslash) ∧
      nestedRepository.isDir "/" = true ∧
      ∃ records, ManifestRecord.load nestedRepository "/" = .ok records ∧
        records.map (·.path) = ["a/package.json", "package.json"] ∧
        ∀ r ∈ records, ∃ content,
          nestedRepository.readBytes (Path.join "/" r.path) = .ok content := by
  have hw : nestedRepository.root.WellFormed := by decide +kernel
  have hplain : ∀ node, nestedRepository.node "/" = .ok node → node.Throughout NoBackslash :=
    fun _ => Disk.throughout_of_node (by decide +kernel)
  have hdir : nestedRepository.isDir "/" = true := by decide +kernel
  have hpaths : (ManifestRecord.load nestedRepository "/").toOption.map (·.map (·.path)) =
      some ["a/package.json", "package.json"] := by decide +kernel
  obtain ⟨records, hload, hpaths⟩ := map_toOption_eq_some_iff.1 hpaths
  obtain ⟨hreturned, hback, -⟩ := returned_leads_back hw hplain hdir
  refine ⟨hw, hplain, hdir, records, hload, hpaths, fun r hr => ?_⟩
  obtain ⟨file, content, h⟩ := (hreturned records hload).1 r hr
  exact ⟨content, (hback r.path file content h).2⟩

/-- Whether a package collects `file` and returns `p` for it. -/
def returnsSource (disk : Disk) (p file : String) : Bool :=
  (ManifestRecord.load disk "/").toOption.any fun records =>
    (Topology.build records).any fun e =>
      (ofEntry e defaultSources).rules.toOption.any fun rules =>
        (Walk.entries disk (reaches (directory "/" e)
            (e.excludePaths.map fun path => Path.components (Path.join "/" path)))
          (directory "/" e)).toOption.any fun found => found.any fun w =>
            w.node.isFile && takesIn rules "/" (Path.joinAll (directory "/" e) w.names) &&
              Path.joinAll (directory "/" e) w.names == file && Path.relativeUnix "/" file == p

theorem exists_returned_of_returnsSource {p file : String} (h : returnsSource disk p file = true) :
    ∃ content, Returned disk "/" p file content := by
  simp only [returnsSource, any_toOption_iff, List.any_eq_true, Bool.and_eq_true, beq_iff_eq] at h
  obtain ⟨records, hload, e, he, rules, hrules, found, hwalk, w, hw, hall, rfl⟩ := h
  obtain ⟨⟨hfile, htakes⟩, rfl⟩ := hall
  obtain ⟨content, hcontent⟩ := exists_content_of_isFile hfile
  exact ⟨content, .source hload he hrules hwalk hw hcontent htakes⟩

/-- Two files that a slash in the one path and a backslash in the other tell apart, and a third one
whose path holds a backslash. -/
def backslashed : Disk :=
  ⟨.dir [("a", .dir [("b.js", .file .empty)]), ("a\\b.js", .file .empty),
    ("c\\d.js", .file .empty), ("package.json", .file "\x7b\x7d".toUTF8)], []⟩

/-- **A backslash in a name** is returned as a slash: the path leads nowhere, or another file has
the same one. -/
theorem not_returned_leads_back_of_backslash :
    (∃ content, Returned backslashed "/" "c/d.js" "/c\\d.js" content ∧
      backslashed.readBytes (Path.join "/" "c/d.js") = .error .notFound) ∧
    (∃ content, Returned backslashed "/" "a/b.js" "/a/b.js" content) ∧
    ∃ content, Returned backslashed "/" "a/b.js" "/a\\b.js" content := by
  refine ⟨?_, ?_, ?_⟩
  · have hreturned : ∃ content, Returned backslashed "/" "c/d.js" "/c\\d.js" content :=
      exists_returned_of_returnsSource (by decide +kernel)
    obtain ⟨content, h⟩ := hreturned
    exact ⟨content, h, by decide +kernel⟩
  · exact exists_returned_of_returnsSource (by decide +kernel)
  · exact exists_returned_of_returnsSource (by decide +kernel)

end PackageScope

end FlowMigration
