import FlowMigration.Package.Scan
import FlowMigration.Proofs.Package.Found
import FlowMigration.Proofs.Package.Sources
import FlowMigration.Proofs.Topology.Nesting
import FlowMigration.Proofs.Walk.Alike

/-!
# What a migration looks at

A migration changes one file, its own configuration. When no symbolic link leads there, nothing else
that it looks at depends on what the file holds. Nor does the search for files depend on what is in
manifests.

* `load_alike`: the manifests.
* `collect_alike`: the files of a package.
* `found_alike`: what the files of a package say, for the default sources.
-/

namespace FlowMigration

/-! ## Walks by their outlines -/

namespace Walk

theorem map_files {α : Type} (found : List WalkEntry) (f : List String → α) :
    (found.filter (·.node.isFile)).map (fun e => f e.names) =
      ((found.map outline).filter (·.2)).map fun o => f o.1 := by
  rw [List.filter_map, List.map_map]
  rfl

/-- Walks of one outline agree on what is asked of their outlines. -/
theorem congr_outline {α ε : Type} {before after : Except ε (List WalkEntry)}
    (h : after.map (·.map outline) = before.map (·.map outline))
    {ask : List WalkEntry → α}
    (hask : ∀ found found', found'.map outline = found.map outline → ask found' = ask found) :
    after.map ask = before.map ask := by
  cases before with
  | error e =>
    cases after with
    | error e' => rw [Except.map, Except.map] at h ⊢; exact congrArg _ (Except.error.inj h)
    | ok found => cases h
  | ok found =>
    cases after with
    | error e' => cases h
    | ok found' =>
      rw [Except.map, Except.map] at h ⊢
      rw [hask found found' (Except.ok.inj h)]

end Walk

/-! ## Manifests -/

section
variable {disk disk' : Disk} {P : List String → Prop} {name : String}
  (h : Disk.AlikeBut P disk disk') (hP : Secluded disk.root name P)
include h hP

namespace ManifestRecord

theorem discover_alike (hname : name ∉ IgnoreLayer.fileNames) (root : String) :
    discover disk' root = discover disk root := by
  have hkeep : Walk.ByKind fun names _ => reaches names := fun _ _ _ _ => rfl
  have hwalk := Walk.outline_entries h hkeep
    (IgnoreLayer.ofDirectory_alike h hP hname) root
  have hdiscover : ∀ d, discover d root =
      ((Walk.entries d (fun names _ => reaches names) root).map fun entries =>
        ((entries.filter (·.node.isFile)).map (·.names)).filter fun names =>
          lastName? root names == some Manifest.fileName).mapError (.walk root) := by
    intro d
    unfold discover
    cases Walk.entries d (fun names _ => reaches names) root with
    | error e => rfl
    | ok entries =>
      rw [Except.map, Except.mapError, List.filter_map, List.filter_filter]
      simp only [Function.comp_def, Bool.and_comm]
  rw [hdiscover, hdiscover]
  refine congrArg (Except.mapError _) (Walk.congr_outline hwalk fun found found' he => ?_)
  rw [Walk.map_files found' fun names => names, he, Walk.map_files found fun names => names]

theorem ofNames_alike {root : String} (hroot : ∀ c, P c → disk.locate root ≠ .ok c)
    (hname : name ≠ Manifest.fileName) {names : List String}
    (hnames : lastName? root names = some Manifest.fileName) :
    ofNames disk' root names = ofNames disk root names := by
  have hread : disk'.read (Path.joinAll root names) = disk.read (Path.joinAll root names) := by
    refine h.read fun c hc => ?_
    rcases List.eq_nil_or_concat names with rfl | ⟨front, last, rfl⟩
    · exact hroot c hc
    · rw [List.concat_eq_append] at hnames ⊢
      obtain rfl : last = Manifest.fileName := by simpa [lastName?] using hnames
      intro hl
      have hpiece := Disk.getLast?_pieces_of_secluded hP hc hl
      rw [Path.joinAll_append, Path.joinAll, List.foldl_cons, List.foldl_nil,
        Path.getLast?_pieces_join] at hpiece
      have hown : (Path.pieces Manifest.fileName.toList).getLast? =
          some Manifest.fileName.toList := by decide
      rw [hown] at hpiece
      exact hname (String.toList_injective (Option.some.inj hpiece)).symm
  simp only [ofNames, Manifest.ofFile, hread]

/-- **The manifests that `load` comes to** do not depend on files of another name. -/
theorem load_alike (hname : name ∉ IgnoreLayer.fileNames) (hname' : name ≠ Manifest.fileName)
    {root : String} (hroot : ∀ c, P c → disk.locate root ≠ .ok c) :
    load disk' root = load disk root := by
  unfold load
  rw [discover_alike h hP hname]
  cases hfound : discover disk root with
  | error failure => rfl
  | ok found =>
    refine congrArg Except.ok (List.map_congr_left fun names hmem => ?_)
    obtain ⟨-, -, -, -, -, -, hlast⟩ := mem_discover hfound hmem
    exact ofNames_alike h hP hroot hname' hlast

end ManifestRecord

/-! ## Files of a package -/

namespace PackageScope

/-- **The files that `scope` collects** do not depend on what is in files of another name. -/
theorem collect_alike (hname : name ∉ IgnoreLayer.fileNames) (scope : PackageScope) (root : String)
    (entry : TopologyEntry) : scope.collect disk' root entry = scope.collect disk root entry := by
  let start := directory root entry
  let keep := reaches start (entry.excludePaths.map fun path => Path.components (Path.join root path))
  have hkeep : Walk.ByKind keep := by
    intro names node node' hdir
    show (!(node.isDir && _)) = !(node'.isDir && _)
    rw [hdir]
  have hwalk := Walk.outline_entries h hkeep
    (IgnoreLayer.ofDirectory_alike h hP hname) start
  have hcollect : ∀ d, scope.collect d root entry = scope.rules.bind fun rules =>
      ((Walk.entries d keep start).map fun found =>
        ((((found.filter (·.node.isFile)).map fun e => Path.joinAll start e.names).filter
          (takesIn rules root)).map (Path.relativeUnix root)).mergeSort (· ≤ ·)).mapError
        (.walk start) := by
    intro d
    unfold collect
    cases scope.rules with
    | error failure => rfl
    | ok rules =>
      dsimp only [bind, Except.bind]
      cases Walk.entries d keep start <;> rfl
  rw [hcollect, hcollect]
  congr 1
  funext rules
  refine congrArg (Except.mapError _) (Walk.congr_outline hwalk fun found found' he => ?_)
  rw [Walk.map_files found' (Path.joinAll start), he, Walk.map_files found (Path.joinAll start)]

end PackageScope

end

/-! ## What the files say -/

/-- The directory of the package of `e` is written without a backslash. -/
theorem Topology.no_backslash_dirPath {disk : Disk} {root : String} {records : List ManifestRecord}
    (hload : ManifestRecord.load disk root = .ok records) {e : TopologyEntry}
    (he : e ∈ build records) : '\\' ∉ e.dirPath.toList := by
  obtain ⟨hmem, hdir⟩ := mem_records_of_mem_build he
  obtain ⟨-, w, -, -, -, -, hrec⟩ := ManifestRecord.mem_load hload hmem
  intro hback
  rw [TopologyEntry.dirPath, Path.toList_ofSegments] at hback
  rcases Path.mem_unpieces hback with hc | ⟨p, hp, hc⟩
  · exact absurd hc (by decide)
  · obtain ⟨part, hpart, rfl⟩ := List.mem_map.1 hp
    rw [← hdir, ManifestRecord.dirSegments] at hpart
    obtain ⟨piece, hpiece, rfl⟩ := List.mem_map.1 (List.dropLast_subset _ hpart)
    rw [String.toList_ofList] at hc
    have hpath := Path.mem_of_mem_pieces hpiece hc
    rw [hrec] at hpath
    exact Path.no_backslash_forwardSlashes _ hpath

namespace PackageScope

/-- The sources of the package of `entry` end in the `endingGroup`. -/
theorem sources_ofEntry {entry : TopologyEntry} (hback : '\\' ∉ entry.dirPath.toList) :
    ∃ cs, '\\' ∉ cs ∧ 2 ≤ cs.length ∧
      (ofEntry entry defaultSources).sources = String.ofList (cs ++ endingGroup) := by
  have hdefault : defaultSources = String.ofList ("**/*.".toList ++ endingGroup) := by decide
  by_cases hroot : entry.isRoot = true
  · refine ⟨"**/*.".toList, by decide, by decide, ?_⟩
    rw [ofEntry, if_pos hroot, hdefault]
  · refine ⟨entry.dirPath.toList ++ '/' :: "**/*.".toList, ?_, by simp, ?_⟩
    · intro h
      rcases List.mem_append.1 h with h | h
      · exact hback h
      · exact absurd h (by decide)
    · apply String.toList_injective
      rw [ofEntry, if_neg hroot, String.toList_append, String.toList_append, String.toList_ofList,
        hdefault, String.toList_ofList]
      simp

/-- **No collected path** leads to a file whose `name` ends like no source file. -/
theorem locate_ne_of_mem_collect {disk : Disk} {P : List String → Prop} {name root : String}
    (hP : Secluded disk.root name P)
    (hname : ∃ front d, name.toList = front ++ [d] ∧ d ∈ otherLetters) {entry : TopologyEntry}
    (hback : '\\' ∉ entry.dirPath.toList) {paths : List String}
    (hpaths : (ofEntry entry defaultSources).collect disk root entry = .ok paths) {path : String}
    (hpath : path ∈ paths) {c : List String} (hc : P c) :
    disk.locate (Path.join root path) ≠ .ok c := by
  obtain ⟨cs, hcs, hlen, hsources⟩ := sources_ofEntry hback
  obtain ⟨rules, found, w, hrules, -, -, -, htakes, rfl⟩ := mem_collect hpaths hpath
  obtain ⟨init, d, hinit, hd⟩ := getLast?_of_takesIn hcs hlen hsources hrules htakes
  have hne : ∀ x ∈ otherLetters, d ≠ x := by
    rintro x hx rfl
    exact hd hx
  intro hl
  have hpiece := Disk.getLast?_pieces_of_secluded hP hc hl
  rw [Path.getLast?_pieces_join] at hpiece
  obtain ⟨front, last, hlast, hmem⟩ := hname
  rcases Path.getLast?_relativeUnix root hinit (hne '/' (by decide)) (hne '.' (by decide))
    (hne '\\' (by decide)) with hempty | hends
  · rw [hempty, hlast] at hpiece
    simp [Path.pieces] at hpiece
  · obtain ⟨rest, hrest⟩ := List.getLast?_eq_some_iff.1 hends
    obtain ⟨front', piece, hpieces⟩ := Path.endsIn_pieces hrest (hne '/' (by decide))
    rw [hpieces, List.getLast?_concat, hlast] at hpiece
    obtain ⟨-, he⟩ := List.append_inj' (Option.some.inj hpiece) rfl
    exact hne last hmem (List.singleton_inj.1 he)

end PackageScope

namespace PackageScan

/-- What is found in the package of `entry`. -/
def found (disk : Disk) (root : String) (entry : TopologyEntry) (sources : String) :
    Except Failure PackageScan :=
  let scope := PackageScope.ofEntry entry sources
  (scope.collect disk root entry).map fun paths =>
    ofFiles scope entry.record.data? (paths.map (ScannedFile.ofPath disk root))

/-- What is `found` in a package is put together from its files. -/
theorem found_eq_ok {disk : Disk} {root sources : String} {entry : TopologyEntry}
    {scan : PackageScan} (h : found disk root entry sources = .ok scan) :
    ∃ paths, (PackageScope.ofEntry entry sources).collect disk root entry = .ok paths ∧
      scan = ofFiles (PackageScope.ofEntry entry sources) entry.record.data?
        (paths.map (ScannedFile.ofPath disk root)) := by
  obtain ⟨paths, hpaths, hscan⟩ := map_eq_ok_iff.1 h
  exact ⟨paths, hpaths, hscan.symm⟩

theorem ofEntry_eq (root : String) (entry : TopologyEntry) (sources : String) (p : Progress) :
    ∃ log, ofEntry root entry sources p = (found p.disk root entry sources, { p with log }) := by
  unfold found
  cases hc : (PackageScope.ofEntry entry sources).collect p.disk root entry with
  | error failure =>
    exact ⟨_, by
      simp only [ofEntry, bind, Session.look, Session.say, hc, Except.map]
      rfl⟩
  | ok paths =>
    exact ⟨_, by
      simp only [ofEntry, bind, Session.look, Session.say, Session.info, Session.disk, hc,
        Except.map, pure]
      rfl⟩

section
variable {disk disk' : Disk} {P : List String → Prop} {name root : String}
  (h : Disk.AlikeBut P disk disk') (hP : Secluded disk.root name P)
  (hends : ∃ front d, name.toList = front ++ [d] ∧ d ∈ PackageScope.otherLetters)
  {entry : TopologyEntry} (hback : '\\' ∉ entry.dirPath.toList)
include h hP hends hback

/-- Collected files at `paths` say the same. -/
theorem files_alike {paths : List String}
    (hpaths : (PackageScope.ofEntry entry PackageScope.defaultSources).collect disk root entry =
      .ok paths) :
    paths.map (ScannedFile.ofPath disk' root) = paths.map (ScannedFile.ofPath disk root) := by
  refine List.map_congr_left fun path hpath => ?_
  have hread := h.read fun c =>
    PackageScope.locate_ne_of_mem_collect hP hends hback hpaths hpath
  simp only [ScannedFile.ofPath, hread]

/-- **What is `found` in a package** does not depend on files that are no sources. -/
theorem found_alike (hname : name ∉ IgnoreLayer.fileNames) :
    found disk' root entry PackageScope.defaultSources =
      found disk root entry PackageScope.defaultSources := by
  unfold found
  dsimp only
  rw [PackageScope.collect_alike h hP hname]
  cases hpaths : (PackageScope.ofEntry entry PackageScope.defaultSources).collect disk root entry with
  | error failure => rfl
  | ok paths => rw [Except.map, Except.map, files_alike h hP hends hback hpaths]

end

end PackageScan

end FlowMigration
