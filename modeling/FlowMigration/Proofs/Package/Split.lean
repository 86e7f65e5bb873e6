import FlowMigration.Proofs.Disk.Move
import FlowMigration.Proofs.Package.Places

/-!
# Packages are split

Manifests are added inside packages that are there: the new packages take over files, and all
packages together collect what they collected before.

* `Disk.Gains`: a disk with more files than another. What does not lead to a new file reads the same
  on both (`Gains.readBytes`).
* `Split`: the new files are manifests inside packages. Where none of them is an ignore file, the
  same places are ruled out (`Split.ruledOut_iff`), what was a package is one still, and what is one
  now was one or got its manifest inside one (`Split.isPackage`, `Split.exists_package`).
* `Split.exists_nearest`, `Split.exists_nearest_before`: how the nearest package of a file changes.
* `split_files`: the packages return the same files, and no two of them the same one, by every path
  that addresses the repository (`Disk.Addresses`).
-/

namespace FlowMigration

open PackageScope (Nearest IsSource ofEntry defaultSources filesByPackage)
open PlainRepository (IsPackage SourceFile Visible)
open Walk (RuledOut layersAbove)

/-! ## Disks with more files -/

namespace Disk

/-- `disk'` is `disk` and a file at every place of `P`, where nothing stood. -/
structure Gains (P : List String → Prop) (disk disk' : Disk) : Prop where
  workingDir : disk'.workingDir = disk.workingDir
  same : ∀ q, ¬P q → disk'.root.bareAt q = disk.root.bareAt q
  free : ∀ q, P q → disk.root.get? q = none
  file : ∀ q, P q → disk'.root.kindAt q = some .file

variable {P : List String → Prop} {disk disk' : Disk} {name : String}

theorem gains_withFile {here : List String} (hroom : disk.root.Room here name)
    (hnone : disk.root.get? (here ++ [name]) = none) (content : ByteArray) :
    Gains (· = here ++ [name]) disk (disk.withFile (here ++ [name]) content) := by
  refine ⟨rfl, fun q hq => ?_, fun q hq => hq ▸ hnone,
    fun q hq => hq ▸ (Node.grown_put hroom content).file⟩
  unfold Node.bareAt withFile
  rcases Node.get?_put_file_of_ne hroom content hq with he | ⟨⟨es, hd⟩, es', hd'⟩
  · rw [he]
  · rw [hd, hd']
    rfl

section
variable (h : Gains P disk disk')
include h

theorem Gains.grownAt : Node.GrownAt P disk.root disk'.root := by
  refine ⟨fun q hq => ?_, h.file, fun q hq => .inl ?_⟩
  · rw [Node.kindAt_eq_bareAt, h.same q hq, ← Node.kindAt_eq_bareAt]
  · rw [Node.kindAt, h.free q hq, Option.map_none]

/-- A `path` leads where it led. -/
theorem Gains.locate {path : String} {place : List String} (hl : disk.locate path = .ok place) :
    disk'.locate path = .ok place := by
  obtain ⟨hnul, hne, hf⟩ := locate_eq_ok.1 hl
  exact locate_eq_ok.2 ⟨hnul, hne, h.workingDir ▸ follow_grownAt h.grownAt hf⟩

theorem Gains.locate_of_not {path : String} {place : List String} (hplace : ¬P place)
    (hl : disk'.locate path = .ok place) : disk.locate path = .ok place := by
  obtain ⟨hnul, hne, hf⟩ := locate_eq_ok.1 hl
  rw [h.workingDir] at hf
  exact locate_eq_ok.2 ⟨hnul, hne, follow_of_grownAt h.grownAt hplace hf⟩

/-- **What does not lead to a new file reads the same** by `readBytes`, faults aside. -/
theorem Gains.readBytes {path : String} (hp : ∀ c, P c → disk'.locate path ≠ .ok c) :
    (disk'.readBytes path).toOption = (disk.readBytes path).toOption := by
  have hgrown := h.grownAt
  cases hl : disk.locate path with
  | ok place =>
    have hl' := h.locate hl
    rcases stands_of_locate hl with hd | hfile
    · rw [readBytes_of_dir hl hd, readBytes_of_dir hl' (hgrown.kindAt hd)]
    · obtain ⟨content, hcontent⟩ := Node.kindAt_eq_file.1 hfile
      have hcontent' := Node.bareAt_eq_file.1
        ((h.same place fun hc => hp place hc hl').trans (Node.bareAt_eq_file.2 hcontent))
      rw [readBytes_of_file hl hcontent, readBytes_of_file hl' hcontent']
  | error error =>
    cases hl' : disk'.locate path with
    | error error' => rw [readBytes_of_error hl, readBytes_of_error hl']; rfl
    | ok place =>
      -- a path that leads somewhere now leads to a new file
      rw [h.locate_of_not (fun hc => hp place hc hl') hl'] at hl
      cases hl

end

end Disk

/-! ## Splitting -/

/-- The places of the manifests of the directories that were `added`. -/
def manifestsOf (home : List String) (added : List String → Prop) (place : List String) : Prop :=
  ∃ parts, added parts ∧ place = home ++ (parts ++ [Manifest.fileName])

/-- `disk'` is `disk` and manifests for the directories of `added`, each of which lies strictly
inside a package of the repository at `root`, which is the directory `home`. -/
structure Split (disk disk' : Disk) (root : String) (home : List String)
    (added : List String → Prop) : Prop where
  gains : disk.Gains (manifestsOf home added) disk'
  inside : ∀ parts, added parts → ∃ records, ManifestRecord.load disk root = .ok records ∧
    ∃ e ∈ Topology.build records, Topology.Encloses e.parts parts

namespace Split

variable {disk disk' : Disk} {root : String} {home : List String} {added : List String → Prop}

/-- No ignore file leads to the manifest of a directory of `added`. -/
def Unlinked (disk : Disk) (home : List String) (added : List String → Prop) : Prop :=
  ∀ dir, ∀ rel ∈ IgnoreLayer.filePaths, ∀ parts, added parts →
    disk.locate (Path.join dir rel) ≠ .ok (home ++ (parts ++ [Manifest.fileName]))

theorem place_manifest (home parts : List String) (added : List String → Prop) :
    manifestsOf home added (home ++ (parts ++ [Manifest.fileName])) ↔ added parts := by
  constructor
  · rintro ⟨other, hadded, hsame⟩
    rwa [(List.append_inj' (List.append_cancel_left hsame) rfl).1]
  · exact fun hadded => ⟨parts, hadded, rfl⟩

/-- A manifest for one directory `parts` inside one of the `packages`. -/
theorem of_withFile (root : String) (home parts : List String)
    (hdir : disk.root.kindAt (home ++ parts) = some .dir)
    (hnone : disk.root.get? (home ++ (parts ++ [Manifest.fileName])) = none)
    {packages : List (List String)}
    (hpackages : (ManifestRecord.load disk root).toOption.map (fun records =>
      (Topology.build records).map (·.parts)) = some packages)
    (hinside : ∃ above ∈ packages, Topology.Encloses above parts) (content : ByteArray) :
    Split disk (disk.withFile (home ++ (parts ++ [Manifest.fileName])) content) root home
      (· = parts) := by
  have hplaces : manifestsOf home (· = parts) = (· = home ++ parts ++ [Manifest.fileName]) := by
    funext place
    simp [manifestsOf, List.append_assoc]
  refine ⟨?_, fun _ hadded => ?_⟩
  · rw [← List.append_assoc] at hnone ⊢
    have hroom : disk.root.Room (home ++ parts) Manifest.fileName :=
      ⟨hdir, .inl (by rw [Node.kindAt, hnone, Option.map_none])⟩
    rw [hplaces]
    exact Disk.gains_withFile hroom hnone content
  · obtain ⟨above, habove, hencloses⟩ := hinside
    obtain ⟨records, hload, rfl⟩ := map_toOption_eq_some_iff.1 hpackages
    obtain ⟨e, he, rfl⟩ := List.mem_map.1 habove
    exact ⟨records, hload, e, he, hadded ▸ hencloses⟩

/-- Where no link at all leads to the manifests, they are `Unlinked`: no ignore file does. -/
theorem Unlinked.of_noLinkTo (h : Split disk disk' root home added)
    (hlinks : ∀ c, manifestsOf home added c → NoLinkTo disk'.root c) :
    Unlinked disk' home added := by
  have hsecluded : Secluded disk'.root Manifest.fileName (manifestsOf home added) := by
    refine ⟨?_, h.gains.file, hlinks⟩
    rintro c ⟨parts, -, rfl⟩
    exact ⟨home ++ parts, (List.append_assoc _ _ _).symm⟩
  exact fun dir rel hrel parts hadded =>
    IgnoreLayer.locate_ne_of_secluded hsecluded (by decide) dir hrel ⟨parts, hadded, rfl⟩

section
variable (h : Split disk disk' root home added) (hlinks : Unlinked disk' home added)
include h hlinks

theorem addresses (hroot : disk.Addresses root home) : disk'.Addresses root home := by
  refine ⟨h.gains.locate hroot.located, fun names hnames rel hrel place hplace => ?_⟩
  have hold : ¬manifestsOf home added place := by
    rintro ⟨parts, hadded, rfl⟩
    exact hlinks _ rel hrel parts hadded hplace
  exact h.gains.locate (hroot.ignoreFiles names (h.gains.grownAt.kindAt_dir.1 hnames) rel hrel place
    (h.gains.locate_of_not hold hplace))

theorem ofDirectory_eq (dir : String) (below : List String) :
    IgnoreLayer.ofDirectory disk' dir below = IgnoreLayer.ofDirectory disk dir below := by
  refine IgnoreLayer.ofDirectory_congr (fun rel hrel => h.gains.readBytes ?_) below
  rintro c ⟨parts, hadded, rfl⟩
  exact hlinks dir rel hrel parts hadded

theorem layersAbove_eq (place : List String) : layersAbove disk' place = layersAbove disk place :=
  Walk.layersAbove_alike (h.ofDirectory_eq hlinks) place

/-- **The same places are `RuledOut`.** -/
theorem ruledOut_iff (place : List String) : RuledOut disk' place ↔ RuledOut disk place :=
  Walk.ruledOut_congr (h.ofDirectory_eq hlinks) (fun _ => h.gains.grownAt.kindAt_dir) place

theorem visible_iff {names : List String} : Visible disk' home names ↔ Visible disk home names := by
  simp only [Visible, h.ruledOut_iff hlinks]

/-! ### Packages -/

theorem isPackage {parts : List String} (hp : IsPackage disk home parts) :
    IsPackage disk' home parts :=
  ⟨h.gains.grownAt.kindAt hp.manifest, hp.outside, (h.visible_iff hlinks).2 hp.visible⟩

theorem isPackage_of_not_added {parts : List String} (hp : IsPackage disk' home parts)
    (hadded : ¬added parts) : IsPackage disk home parts :=
  ⟨h.gains.grownAt.same _ (mt (place_manifest home parts added).1 hadded) ▸ hp.manifest, hp.outside,
    (h.visible_iff hlinks).1 hp.visible⟩

/-- Every package lies in one that was there, called `above`, or is one. -/
theorem exists_package (hplain : PlainRepository disk home) (hroot : disk.Addresses root home)
    {parts : List String}
    (hp : IsPackage disk' home parts) :
    ∃ above, IsPackage disk home above ∧ above <+: parts := by
  by_cases hadded : added parts
  · obtain ⟨records, hload, e, he, hin, -⟩ := h.inside parts hadded
    exact ⟨e.parts, hplain.isPackage hroot hload he, hin⟩
  · exact ⟨parts, h.isPackage_of_not_added hlinks hp hadded, List.prefix_rfl⟩

/-! ### Source files -/

/-- **The source files are the same**: no manifest is one by `SourceFile`. -/
theorem sourceFile_iff {dirs : List String} {name : String} :
    SourceFile disk' home dirs name ↔ SourceFile disk home dirs name := by
  have hsame : IsSource name → disk'.root.kindAt (home ++ (dirs ++ [name])) =
      disk.root.kindAt (home ++ (dirs ++ [name])) := by
    intro hsource
    refine h.gains.grownAt.same _ ?_
    rintro ⟨parts, -, he⟩
    obtain ⟨-, hname⟩ := List.append_inj' (List.append_cancel_left he) rfl
    rw [List.singleton_inj.1 hname] at hsource
    exact absurd hsource PackageScope.not_isSource_manifest
  constructor
  · rintro ⟨hfile, hsource, hout, hvisible⟩
    exact ⟨hsame hsource ▸ hfile, hsource, hout, (h.visible_iff hlinks).1 hvisible⟩
  · rintro ⟨hfile, hsource, hout, hvisible⟩
    exact ⟨(hsame hsource).trans hfile, hsource, hout, (h.visible_iff hlinks).2 hvisible⟩

end

end Split

/-! ## Main statement -/

section
variable {disk disk' : Disk} {root : String} {home : List String} {added : List String → Prop}
  (hplain : PlainRepository disk home) (hplain' : PlainRepository disk' home)
  (hroot : disk.Addresses root home) (h : Split disk disk' root home added)
  (hlinks : Split.Unlinked disk' home added)
include hplain hplain' hroot h hlinks

theorem Split.isOk_load : (ManifestRecord.load disk' root).isOk =
    (ManifestRecord.load disk root).isOk := by
  rw [Bool.eq_iff_iff, hplain.isOk_load hroot, hplain'.isOk_load (h.addresses hlinks hroot),
    h.layersAbove_eq hlinks]

section
variable {records records' : List ManifestRecord}
  (hload : ManifestRecord.load disk root = .ok records)
  (hload' : ManifestRecord.load disk' root = .ok records')
  {e : TopologyEntry} {dirs : List String}
include hload hload'

/-- **The `Nearest` package after a split** is the one before it, or a new one. -/
theorem Split.exists_nearest (he : e ∈ Topology.build records)
    (hnear : Nearest (Topology.build records) e dirs) :
    ∃ e' ∈ Topology.build records', Nearest (Topology.build records') e' dirs ∧
      (e'.parts = e.parts ∨ added e'.parts) := by
  have hroot' := h.addresses hlinks hroot
  obtain ⟨g, hg, hparts⟩ := (hplain'.exists_package_iff hroot' hload').2
    (h.isPackage hlinks (hplain.isPackage hroot hload he))
  obtain ⟨e', he', hnear'⟩ := PackageScope.exists_nearest hg (hparts ▸ hnear.1)
  refine ⟨e', he', hnear', or_iff_not_imp_right.2 fun hadded => ?_⟩
  -- a nearer package that is not new would have been nearer before
  obtain ⟨f, hf, hsame⟩ := (hplain.exists_package_iff hroot hload).2
    (h.isPackage_of_not_added hlinks (hplain'.isPackage hroot' hload' he') hadded)
  have hle := hnear.2 f hf (hsame ▸ hnear'.1)
  have hge := hnear'.2 g hg (hparts ▸ hnear.1)
  rw [hsame] at hle
  rw [hparts] at hge
  exact (List.prefix_of_prefix_length_le hnear'.1 hnear.1 hle).eq_of_length_le hge

/-- The `Nearest` package before a split lies around the one after it. -/
theorem Split.exists_nearest_before (he : e ∈ Topology.build records')
    (hnear : Nearest (Topology.build records') e dirs) :
    ∃ e' ∈ Topology.build records, Nearest (Topology.build records) e' dirs ∧
      e'.parts <+: e.parts := by
  have hroot' := h.addresses hlinks hroot
  obtain ⟨above, habove, hin⟩ :=
    h.exists_package hlinks hplain hroot (hplain'.isPackage hroot' hload' he)
  obtain ⟨g, hg, rfl⟩ := (hplain.exists_package_iff hroot hload).2 habove
  obtain ⟨e', he', hnear'⟩ := PackageScope.exists_nearest hg (hin.trans hnear.1)
  obtain ⟨f, hf, hsame⟩ := (hplain'.exists_package_iff hroot' hload').2
    (h.isPackage hlinks (hplain.isPackage hroot hload he'))
  have hle := hnear.2 f hf (hsame ▸ hnear'.1)
  rw [hsame] at hle
  exact ⟨e', he', hnear', List.prefix_of_prefix_length_le hnear'.1 hnear.1 hle⟩

/-- **A `Nearest` package that does not fail** is there after a split when there is one before it,
where no new package fails. -/
theorem Split.exists_faultless_iff
    (hall : ∀ e ∈ Topology.build records', added e.parts →
      ((ofEntry e defaultSources).collect disk' root e).isOk = true) :
    (∃ e ∈ Topology.build records, Nearest (Topology.build records) e dirs ∧
        (layersAbove disk (home ++ e.parts)).2 = []) ↔
      ∃ e ∈ Topology.build records', Nearest (Topology.build records') e dirs ∧
        (layersAbove disk' (home ++ e.parts)).2 = [] := by
  simp only [h.layersAbove_eq hlinks]
  constructor
  · rintro ⟨e, he, hnear, hfaultless⟩
    obtain ⟨e', he', hnear', hcases⟩ :=
      h.exists_nearest hplain hplain' hroot hlinks hload hload' he hnear
    refine ⟨e', he', hnear', ?_⟩
    rcases hcases with hsame | hadded
    · rwa [hsame]
    · rw [← h.layersAbove_eq hlinks]
      exact (hplain'.isOk_collect (h.addresses hlinks hroot) hload' he').1 (hall e' he' hadded)
  · rintro ⟨e, he, hnear, hfaultless⟩
    obtain ⟨e', he', hnear', hin⟩ :=
      h.exists_nearest_before hplain hplain' hroot hlinks hload hload' he hnear
    exact ⟨e', he', hnear',
      Walk.faultless_of_prefix ((List.prefix_append_right_inj home).2 hin) hfaultless⟩

end

/-- **Splitting packages moves files** and neither loses nor adds any: with manifests added inside
packages (`Split`), all packages together return the same files as before (`filesByPackage`) where
every new package returns its files, and never do two packages return the same file. -/
theorem split_files
    (hall : ∀ records, ManifestRecord.load disk' root = .ok records →
      ∀ e ∈ Topology.build records, added e.parts →
        ((ofEntry e defaultSources).collect disk' root e).isOk = true) :
    (ManifestRecord.load disk' root).isOk =
        (ManifestRecord.load disk root).isOk ∧
      (∀ p, p ∈ (filesByPackage disk root).flatten ↔
        p ∈ (filesByPackage disk' root).flatten) ∧
      (filesByPackage disk root).Pairwise List.Disjoint ∧
      (filesByPackage disk' root).Pairwise List.Disjoint := by
  have hroot' := h.addresses hlinks hroot
  have hloads := h.isOk_load hplain hplain' hroot hlinks
  refine ⟨hloads, fun p => ?_, hplain.pairwise_disjoint hroot,
    hplain'.pairwise_disjoint hroot'⟩
  cases hload : ManifestRecord.load disk root with
  | error failure =>
    cases hload' : ManifestRecord.load disk' root with
    | ok records' => rw [hload, hload'] at hloads; cases hloads
    | error failure' => simp [filesByPackage, hload, hload']
  | ok records =>
    cases hload' : ManifestRecord.load disk' root with
    | error failure' => rw [hload, hload'] at hloads; cases hloads
    | ok records' =>
      rw [hplain.mem_filesByPackage_iff hroot hload, hplain'.mem_filesByPackage_iff hroot' hload']
      simp only [h.sourceFile_iff hlinks,
        h.exists_faultless_iff hplain hplain' hroot hlinks hload hload' (hall records' hload')]

end

/-- A new package at `parts` returns its files where no ignore file around it has a fault. -/
theorem isOk_collect_of_faultless {disk : Disk} {root : String} {home parts : List String}
    (hplain : PlainRepository disk home) (hroot : disk.Addresses root home)
    (hfaultless : (layersAbove disk (home ++ parts)).2 = []) :
    ∀ records, ManifestRecord.load disk root = .ok records →
      ∀ e ∈ Topology.build records, e.parts = parts →
        ((ofEntry e defaultSources).collect disk root e).isOk = true := by
  rintro records hload e he rfl
  exact (hplain.isOk_collect hroot hload he).2 hfaultless

/-- A repository with a package and, inside, a directory of sources; the link `l` leads back to it.
-/
def unsplit : Disk :=
  ⟨.dir [("l", .link "/"), ("package.json", .file "\x7b\x7d".toUTF8),
    ("sub", .dir [("x.js", .file .empty)])], []⟩

/-- A manifest in the directory makes its file one of a package of its own. -/
theorem split_files_of_sub : ∃ disk', Split unsplit disk' "/l" [] (· = ["sub"]) ∧
    filesByPackage unsplit "/l" = [["sub/x.js"]] ∧
    filesByPackage disk' "/l" = [["sub/x.js"], []] ∧
    ∀ p, p ∈ (filesByPackage unsplit "/l").flatten ↔ p ∈ (filesByPackage disk' "/l").flatten := by
  have hpackages : (ManifestRecord.load unsplit "/l").toOption.map (fun records =>
      (Topology.build records).map (·.parts)) = some [[]] := by decide +kernel
  have hsplit : Split unsplit _ "/l" [] (· = ["sub"]) := .of_withFile "/l" [] ["sub"]
    (by decide +kernel) (by decide +kernel) hpackages (by decide +kernel) "\x7b\x7d".toUTF8
  have hplain : PlainRepository unsplit [] := .of_root (by decide +kernel) (by decide +kernel)
  have hplain' : PlainRepository (unsplit.withFile ([] ++ (["sub"] ++ [Manifest.fileName]))
      "\x7b\x7d".toUTF8) [] := .of_root (by decide +kernel) (by decide +kernel)
  have hroot : unsplit.Addresses "/l" [] := .of_plainIgnoreFiles (by decide +kernel)
    (by decide +kernel) (by decide +kernel) (Node.get?_nil _) (by decide +kernel)
  have htargets : (unsplit.withFile ([] ++ (["sub"] ++ [Manifest.fileName]))
      "\x7b\x7d".toUTF8).root.Throughout (LinksAmong ["/"]) := by decide +kernel
  have hlinks : Split.Unlinked (unsplit.withFile ([] ++ (["sub"] ++ [Manifest.fileName]))
      "\x7b\x7d".toUTF8) [] (· = ["sub"]) := by
    refine .of_noLinkTo hsplit ?_
    rintro c ⟨parts, rfl, rfl⟩
    exact .of_targets htargets (by decide +kernel)
  have hfaultless : (layersAbove (unsplit.withFile ([] ++ (["sub"] ++ [Manifest.fileName]))
      "\x7b\x7d".toUTF8) ([] ++ ["sub"])).2 = [] := by decide +kernel
  obtain ⟨-, hsame, -⟩ := split_files hplain hplain' hroot hsplit hlinks
    (isOk_collect_of_faultless hplain' (hsplit.addresses hlinks hroot) hfaultless)
  exact ⟨_, hsplit, by decide +kernel, by decide +kernel, hsame⟩

/-- A repository like `unsplit` where an ignore file around the directory has a fault in it. -/
def faultyAbove : Disk :=
  ⟨.dir [(".gitignore", .file "\x7b\n".toUTF8), ("package.json", .file "\x7b\x7d".toUTF8),
    ("sub", .dir [("x.js", .file .empty)])], []⟩

/-- One where an ignore file is a link to the manifest that is not there yet. -/
def linkedInside : Disk :=
  ⟨.dir [("package.json", .file "\x7b\x7d".toUTF8),
    ("sub", .dir [(".gitignore", .link "package.json"), ("x.js", .file .empty)])], []⟩

/-- One where the ignore file is a link, and the path `/a` takes all of its `Disk.maxLinks` links to
lead back to the repository. -/
def winding : Disk :=
  ⟨.dir [(".gitignore", .link "/rules"), ("a", .link "/b/b/b"), ("b", .link "/c/c/c"),
    ("c", .link "/d/d/d"), ("d", .link "/"), ("package.json", .file "\x7b\x7d".toUTF8),
    ("rules", .file "x.js\n".toUTF8), ("sub", .dir [("x.js", .file .empty)])], []⟩

/-- `faultyAbove` loses `sub/x.js`: the walk that starts at the new package fails. -/
theorem not_split_files_of_fault :
    ¬∀ (disk disk' : Disk) (home : List String) (added : List String → Prop),
      PlainRepository disk home → PlainRepository disk' home →
      Split disk disk' (Disk.pathOf home) home added → Split.Unlinked disk' home added →
      ∀ p, p ∈ (filesByPackage disk (Disk.pathOf home)).flatten ↔
        p ∈ (filesByPackage disk' (Disk.pathOf home)).flatten := by
  intro h
  have hpackages : (ManifestRecord.load faultyAbove (Disk.pathOf [])).toOption.map (fun records =>
      (Topology.build records).map (·.parts)) = some [[]] := by decide +kernel
  have hsplit : Split faultyAbove _ (Disk.pathOf []) [] (· = ["sub"]) := .of_withFile _ [] ["sub"]
    (by decide +kernel) (by decide +kernel) hpackages (by decide +kernel) "\x7b\x7d".toUTF8
  have hnone : (faultyAbove.withFile ([] ++ (["sub"] ++ [Manifest.fileName]))
      "\x7b\x7d".toUTF8).root.Throughout NoLinks := by decide +kernel
  have hsame := h _ _ _ _ (.of_root (by decide +kernel) (by decide +kernel))
    (.of_root (by decide +kernel) (by decide +kernel)) hsplit
    (.of_noLinkTo hsplit fun c _ => .of_throughout hnone c) "sub/x.js"
  exact absurd (hsame.1 (by decide +kernel)) (by decide +kernel)

/-- `linkedInside` loses it: the lines of the new manifest are read as rules. -/
theorem not_split_files_of_link :
    ¬∀ (disk disk' : Disk) (home : List String) (added : List String → Prop),
      PlainRepository disk home → PlainRepository disk' home →
      Split disk disk' (Disk.pathOf home) home added →
      (∀ records, ManifestRecord.load disk' (Disk.pathOf home) = .ok records →
        ∀ e ∈ Topology.build records, added e.parts →
          ((ofEntry e defaultSources).collect disk' (Disk.pathOf home) e).isOk = true) →
      ∀ p, p ∈ (filesByPackage disk (Disk.pathOf home)).flatten ↔
        p ∈ (filesByPackage disk' (Disk.pathOf home)).flatten := by
  intro h
  have hpackages : (ManifestRecord.load linkedInside (Disk.pathOf [])).toOption.map (fun records =>
      (Topology.build records).map (·.parts)) = some [[]] := by decide +kernel
  have hsplit : Split linkedInside _ (Disk.pathOf []) [] (· = ["sub"]) := .of_withFile _ [] ["sub"]
    (by decide +kernel) (by decide +kernel) hpackages (by decide +kernel) "x.js".toUTF8
  have hlegal : (linkedInside.withFile ([] ++ (["sub"] ++ [Manifest.fileName]))
      "x.js".toUTF8).Legal := by decide +kernel
  have hplain' : PlainRepository (linkedInside.withFile ([] ++ (["sub"] ++ [Manifest.fileName]))
      "x.js".toUTF8) [] := .of_root hlegal (by decide +kernel)
  have hfaultless : (layersAbove (linkedInside.withFile ([] ++ (["sub"] ++ [Manifest.fileName]))
      "x.js".toUTF8) ([] ++ ["sub"])).2 = [] := by decide +kernel
  have hsame := h _ _ _ _ (.of_root (by decide +kernel) (by decide +kernel)) hplain' hsplit
    (isOk_collect_of_faultless hplain' (.of_pathOf hlegal.wellFormed hlegal.top hlegal.top)
      hfaultless) "sub/x.js"
  exact absurd (hsame.1 (by decide +kernel)) (by decide +kernel)

/-- `winding` loses it: by the path `/a` the ignore file is out of reach, but not by the absolute
path, by which the walk from the new package reads it. -/
theorem not_split_files_of_long_way :
    ¬∀ (disk disk' : Disk) (root : String) (home : List String) (added : List String → Prop),
      PlainRepository disk home → PlainRepository disk' home → disk.locate root = .ok home →
      Split disk disk' root home added → Split.Unlinked disk' home added →
      (∀ records, ManifestRecord.load disk' root = .ok records →
        ∀ e ∈ Topology.build records, added e.parts →
          ((ofEntry e defaultSources).collect disk' root e).isOk = true) →
      ∀ p, p ∈ (filesByPackage disk root).flatten ↔ p ∈ (filesByPackage disk' root).flatten := by
  intro h
  have hpackages : (ManifestRecord.load winding "/a").toOption.map (fun records =>
      (Topology.build records).map (·.parts)) = some [[]] := by decide +kernel
  have hsplit : Split winding _ "/a" [] (· = ["sub"]) := .of_withFile _ [] ["sub"]
    (by decide +kernel) (by decide +kernel) hpackages (by decide +kernel) "\x7b\x7d".toUTF8
  have htargets : (winding.withFile ([] ++ (["sub"] ++ [Manifest.fileName]))
      "\x7b\x7d".toUTF8).root.Throughout
        (LinksAmong ["/", "/b/b/b", "/c/c/c", "/d/d/d", "/rules"]) := by
    decide +kernel
  have hlinks : Split.Unlinked (winding.withFile ([] ++ (["sub"] ++ [Manifest.fileName]))
      "\x7b\x7d".toUTF8) [] (· = ["sub"]) := by
    refine .of_noLinkTo hsplit ?_
    rintro c ⟨parts, rfl, rfl⟩
    exact .of_targets htargets (by decide +kernel)
  have hall : (ManifestRecord.load (winding.withFile ([] ++ (["sub"] ++ [Manifest.fileName]))
      "\x7b\x7d".toUTF8) "/a").toOption.all (fun records => (Topology.build records).all fun e =>
        ((ofEntry e defaultSources).collect (winding.withFile
          ([] ++ (["sub"] ++ [Manifest.fileName])) "\x7b\x7d".toUTF8) "/a" e).isOk) = true := by
    decide +kernel
  have hsame := h _ _ _ _ _ (.of_root (by decide +kernel) (by decide +kernel))
    (.of_root (by decide +kernel) (by decide +kernel)) (by decide +kernel) hsplit hlinks
    (fun records hload e he _ => by
      rw [hload] at hall
      exact List.all_eq_true.1 hall e he) "sub/x.js"
  exact absurd (hsame.1 (by decide +kernel)) (by decide +kernel)

/-- **A split may lose files** where a new package cannot be collected, for the faults of an ignore
file that counts only for walks that start below it; where a link makes an ignore file of a new
manifest; and where `root` leads to the repository but not on to its ignore files. -/
theorem not_split_files_of_faults_or_links :
    (¬∀ (disk disk' : Disk) (home : List String) (added : List String → Prop),
      PlainRepository disk home → PlainRepository disk' home →
      Split disk disk' (Disk.pathOf home) home added → Split.Unlinked disk' home added →
      ∀ p, p ∈ (filesByPackage disk (Disk.pathOf home)).flatten ↔
        p ∈ (filesByPackage disk' (Disk.pathOf home)).flatten) ∧
    (¬∀ (disk disk' : Disk) (home : List String) (added : List String → Prop),
      PlainRepository disk home → PlainRepository disk' home →
      Split disk disk' (Disk.pathOf home) home added →
      (∀ records, ManifestRecord.load disk' (Disk.pathOf home) = .ok records →
        ∀ e ∈ Topology.build records, added e.parts →
          ((ofEntry e defaultSources).collect disk' (Disk.pathOf home) e).isOk = true) →
      ∀ p, p ∈ (filesByPackage disk (Disk.pathOf home)).flatten ↔
        p ∈ (filesByPackage disk' (Disk.pathOf home)).flatten) ∧
    ¬∀ (disk disk' : Disk) (root : String) (home : List String) (added : List String → Prop),
      PlainRepository disk home → PlainRepository disk' home → disk.locate root = .ok home →
      Split disk disk' root home added → Split.Unlinked disk' home added →
      (∀ records, ManifestRecord.load disk' root = .ok records →
        ∀ e ∈ Topology.build records, added e.parts →
          ((ofEntry e defaultSources).collect disk' root e).isOk = true) →
      ∀ p, p ∈ (filesByPackage disk root).flatten ↔ p ∈ (filesByPackage disk' root).flatten :=
  ⟨not_split_files_of_fault, not_split_files_of_link, not_split_files_of_long_way⟩

end FlowMigration
