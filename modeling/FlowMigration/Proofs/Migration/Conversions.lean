import FlowMigration.Proofs.Conversion
import FlowMigration.Proofs.Migration.Alarms
import FlowMigration.Proofs.Migration.Ground

/-!
# What becomes of the files that were scanned

A migration with collaborators hands over every file that it could read, once, and tells for each
one whether it went through.

* `Visit.Seen.perm_tally`: the tally of a package holds the files that were handed over.
* `Visit.Seen.nodup_readable`, `Trail.Of.nodup_readable`: no file is handed over twice, neither for
  one package nor for two of them.
* `Conversion.Handed`: how the text of a file that was handed out came about.
* `conversions_of_plan`: what a whole migration reports about its conversions, and hands out.
-/

namespace FlowMigration

namespace Conversion

/-! ## The files of a package -/

/-- The text of the file at `path` is what a converter made of it on a disk. A formatter was applied
to it if there is one and `prettier` is set, and to nothing otherwise. -/
def Handed (c : Collaborators) (prettier : Bool) (disk : Disk) (root : String)
    (compiler : CompilerOptions) (path text : String) : Prop :=
  ∃ source options converted, disk.read (Path.join root path) = .ok source ∧
    c.convert path source options compiler = .ok converted ∧
    (prettier = true → ∀ format, c.format = some format → format path converted = .ok text) ∧
    (prettier = false ∨ c.format = none → text = converted)

theorem handed_of_handsOver {c : Collaborators} {config : MigrationConfig} {disk : Disk} {root : String}
    {compiler : CompilerOptions} {file : ScannedFile} {text : String}
    (h : HandsOver (Migration.allowed config c) disk root compiler file text) :
    Handed c config.prettier disk root compiler file.path text := by
  obtain ⟨options, source, converted, -, hread, hconverted, hformatted⟩ := h
  cases hprettier : config.prettier with
  | false =>
    simp only [Migration.allowed, hprettier] at hconverted hformatted
    exact ⟨source, options, converted, hread, hconverted, by simp, fun _ => hformatted.symm⟩
  | true =>
    simp only [Migration.allowed, hprettier, if_true] at hconverted hformatted
    refine ⟨source, options, converted, hread, hconverted, fun _ format hformat => ?_, ?_⟩
    · rwa [hformat] at hformatted
    · rintro (hno | hnone)
      · cases hno
      · rw [hnone] at hformatted
        exact hformatted.symm

/-- **What is handed out**: the `deliveries` for the files of a package are `Handed`, each by its
file. -/
theorem handed_of_mem_deliveries {c : Collaborators} {config : MigrationConfig} {disk : Disk}
    {root : String} {compiler : CompilerOptions} {files : List ScannedFile} {d : String × String}
    (h : d ∈ deliveries (all (Migration.allowed config c) disk root compiler files)) :
    Handed c config.prettier disk root compiler d.1 d.2 := by
  obtain ⟨conversion, hmem, hd⟩ := List.mem_filterMap.1 h
  obtain ⟨text, htext, rfl⟩ := Option.map_eq_some_iff.1 hd
  obtain ⟨file, -, hfile⟩ := List.mem_filterMap.1 hmem
  have hhanded : HandsOver (Migration.allowed config c) disk root compiler file text :=
    delivered_iff.1 (by rw [ofScanned?, hfile]; exact htext)
  rw [path_of_ofScanned? hfile]
  exact handed_of_handsOver hhanded

end Conversion

/-! ## The files of a visit -/

namespace Visit

variable {root sources : String} {c : Collaborators} {collaborators : Option Collaborators} {v : Visit}

theorem Seen.exists_paths (h : v.Seen root sources collaborators) :
    ∃ paths, (PackageScope.ofEntry v.entry sources).collect v.disk root v.entry = .ok paths ∧
      v.scan.files = paths.map (ScannedFile.ofPath v.disk root) := by
  obtain ⟨paths, hcollect, hscan⟩ := PackageScan.found_eq_ok h.scanned
  exact ⟨paths, hcollect, by rw [hscan, PackageScan.ofFiles]⟩

/-- The `readable` files are some of those that were collected. -/
theorem Seen.readable_sublist (h : v.Seen root sources collaborators) :
    ∃ paths, (PackageScope.ofEntry v.entry sources).collect v.disk root v.entry = .ok paths ∧
      (ScannedFile.readable v.scan.files).Sublist paths := by
  obtain ⟨paths, hcollect, hfiles⟩ := h.exists_paths
  have hpaths : (paths.map (ScannedFile.ofPath v.disk root)).map (·.path) = paths := by
    rw [List.map_map]
    exact List.map_id' paths
  refine ⟨paths, hcollect, ?_⟩
  have hsub := (List.filter_sublist (p := (!·.isFailed)) (l := v.scan.files)).map (·.path)
  rw [ScannedFile.readable, hfiles]
  rwa [hfiles, hpaths] at hsub

/-- **The `tally` of a visit** holds the files that could be read. -/
theorem Seen.perm_tally (h : v.Seen root sources (some c)) :
    (v.tally.converted ++ v.tally.failed).Perm (ScannedFile.readable v.scan.files) := by
  have hpaths := Conversion.map_path_all c v.disk root v.scan.config.compilerOptions v.scan.files
  rw [← hpaths, tally, h.converted]
  exact Conversion.perm_tally _

theorem Seen.filesScanned_eq (h : v.Seen root sources collaborators) :
    v.scan.usage.filesScanned = (ScannedFile.readable v.scan.files).length := by
  rw [h.usage_eq, Usage.filesScanned_ofScan, ScannedFile.readable, List.length_map]

end Visit

/-! ## The files of a migration -/

theorem Report.filesAnalyzed_eq_sum (report : Report) :
    report.filesAnalyzed = (report.packages.map (·.usage.filesScanned)).sum := by
  rw [filesAnalyzed, List.sum_eq_foldl, List.foldl_map]

namespace Trail

variable {t : Trail} {settings : Settings} {collaborators : Option Collaborators}
  {disk last : Disk} {report : Report}

/-- **No file is read for two packages, nor twice for one**: a package is the nearest one around the
files that it collects, on whichever disk its `Ground` is. -/
theorem Of.nodup_readable (h : t.Of settings collaborators disk report last) {place : List String}
    (hgrounds : ∀ v ∈ t.visits, Ground t.root place v.disk ∧
      ∀ e ∈ Topology.build t.records, PackageScope.Folder v.disk t.root e.parts) :
    (t.visits.flatMap fun v => ScannedFile.readable v.scan.files).Nodup := by
  have hentry : ∀ v ∈ t.visits, v.entry ∈ Topology.build t.records := fun v hv =>
    h.entries ▸ List.mem_map_of_mem hv
  have hnearest : ∀ v ∈ t.visits, ∀ path ∈ ScannedFile.readable v.scan.files,
      PackageScope.Nearest (Topology.build t.records) v.entry (Path.segments path).dropLast := by
    intro v hv path hpath
    obtain ⟨hground, hfolders⟩ := hgrounds v hv
    obtain ⟨paths, hcollect, hsub⟩ := (h.seen v hv).readable_sublist
    exact PackageScope.nearest_of_folders hground.wellFormed hground.plain_node hfolders
      (hentry v hv) hcollect (hsub.subset hpath)
  rw [List.nodup_flatMap]
  constructor
  · intro v hv
    obtain ⟨hground, hfolders⟩ := hgrounds v hv
    obtain ⟨paths, hcollect, hsub⟩ := (h.seen v hv).readable_sublist
    exact (PackageScope.nodup_collect hground.wellFormed hground.plain_node
      (hfolders _ (hentry v hv)) hcollect).sublist hsub
  · -- the packages that are visited are different ones
    have hdistinct : (t.visits.map (·.entry)).Nodup := by
      rw [h.entries]
      exact (Topology.nested_build t.records).nodup.of_map _
    refine (List.pairwise_map.1 hdistinct).imp_of_mem fun {v v'} hv hv' hne path hpath hpath' => ?_
    exact hne ((hnearest v hv path hpath).unique (hentry v hv) (hentry v' hv')
      (hnearest v' hv' path hpath'))

end Trail

namespace Migration

variable {settings : Settings} {c : Collaborators} {disk : Disk} {report : Report} {q : Progress}

/-- **Conversion accounts for every file that was scanned**, in a repository whose names hold no
backslash and where no link stands where the configuration is written first. The files that were
converted and those that failed are, together, the `readable` ones of all visits of the trail `t`,
none of them twice, as many as the report says (`filesAnalyzed`). Every text of `v.deliveries` went
through the formatter, if there is one and the configuration `t.store.config` that was loaded asks
for it; otherwise none did. -/
theorem conversions_of_plan (hlegal : disk.Legal)
    (hplain : ∀ node, disk.node report.root = .ok node → node.Throughout NoBackslash)
    (hlink : ∀ target, disk.entry (report.configPath ++ ".tmp") ≠ .ok (.link target))
    (h : plan settings (some c) { disk } = (.ok report, q)) :
    ∃ (t : Trail) (tally : Tally), t.Of settings (some c) disk report q.disk ∧
      report.packages = t.visits.map (·.report t.registry) ∧
      report.conversions = some tally ∧
      (tally.converted ++ tally.failed).Perm
        (t.visits.flatMap fun v => ScannedFile.readable v.scan.files) ∧
      (tally.converted ++ tally.failed).Nodup ∧
      (tally.converted ++ tally.failed).length = report.filesAnalyzed ∧
      q.deliveries = t.visits.flatMap Visit.deliveries ∧
      ∀ v ∈ t.visits, ∀ d ∈ v.deliveries, Conversion.Handed c t.store.config.prettier v.disk t.root
        v.scan.config.compilerOptions d.1 d.2 := by
  obtain ⟨t, ht, -, hdelivered⟩ := exists_delivering_trail_of_plan h
  have hroot : report.root = t.root := by rw [ht.reported]
  have hconfig : report.configPath = t.store.path := by rw [ht.reported]
  rw [hroot] at hplain
  rw [hconfig] at hlink
  obtain ⟨place, hgrounds⟩ := ht.grounds hlegal hplain hlink
  have hconversions : report.conversions = some ⟨t.visits.flatMap (·.tally.converted),
      t.visits.flatMap (·.tally.failed)⟩ := by
    rw [ht.reported, Visit.tallies_eq]
    rfl
  have hperm : (t.visits.flatMap (·.tally.converted) ++ t.visits.flatMap (·.tally.failed)).Perm
      (t.visits.flatMap fun v => ScannedFile.readable v.scan.files) :=
    (List.flatMap_append_perm _ _ _).trans
      (List.Perm.flatMap_left _ fun v hv => (ht.seen v hv).perm_tally)
  refine ⟨t, _, ht, ht.packages, hconversions, hperm,
    hperm.nodup_iff.2 (ht.nodup_readable hgrounds), ?_, hdelivered, ?_⟩
  · rw [hperm.length_eq, Report.filesAnalyzed_eq_sum, ht.packages, List.length_flatMap, List.map_map]
    refine congrArg List.sum (List.map_congr_left fun v hv => ?_)
    exact (ht.seen v hv).filesScanned_eq.symm
  · intro v hv d hd
    rw [Visit.deliveries, (ht.seen v hv).converted] at hd
    exact Conversion.handed_of_mem_deliveries hd

/-- A converter that adds a letter, a formatter that adds another one, and a sink that refuses what
is in a directory. -/
def marking : Collaborators where
  convert _ text _ _ := .ok (text ++ "c")
  format := some fun _ text => .ok (text ++ "f")
  deliver path _ := if path.toList.contains '/' then .error (.refused "no") else .ok ()

/-- A repository with a package inside another one, whose configuration wants no formatter. -/
def unformatted : Disk :=
  ⟨.dir [("a", .dir [("package.json", .file "\x7b\x7d".toUTF8), ("x.js", .file "x".toUTF8)]),
    ("flow-ts-config.json", .file "\x7b\"prettier\":false\x7d".toUTF8),
    ("package.json", .file "\x7b\x7d".toUTF8), ("y.js", .file "y".toUTF8)], []⟩

/-- Both files are handed out, and neither was formatted. -/
theorem conversions_of_plan_unformatted : ∃ report q,
    plan { root := some "/" } (some marking) { disk := unformatted } = (.ok report, q) ∧
      q.deliveries = [("a/x.js", "xc"), ("y.js", "yc")] ∧
      ∃ tally, report.conversions = some tally ∧ tally = ⟨["y.js"], ["a/x.js"]⟩ ∧
        (tally.converted ++ tally.failed).Nodup ∧
        (tally.converted ++ tally.failed).length = report.filesAnalyzed := by
  have hlegal : unformatted.Legal := by decide +kernel
  have hroot : Settings.findRoot { root := some "/" } unformatted = .ok "/" := by decide +kernel
  have hplain : ∀ node, unformatted.node "/" = .ok node → node.Throughout NoBackslash :=
    fun _ => Disk.throughout_of_node (by decide +kernel)
  have hlink : ∀ target, unformatted.entry ("/flow-ts-config.json" ++ ".tmp") ≠
      .ok (.link target) := fun _ => ne_ok_of_isOk (by decide +kernel) _
  have hfacts :
      ((plan { root := some "/" } (some marking) { disk := unformatted }).1.toOption.map (·.conversions),
        (plan { root := some "/" } (some marking) { disk := unformatted }).2.deliveries) =
        (some (some ⟨["y.js"], ["a/x.js"]⟩), [("a/x.js", "xc"), ("y.js", "yc")]) := by decide +kernel
  obtain ⟨hfound, hdelivered⟩ := Prod.mk.inj hfacts
  obtain ⟨report, q, hrun, hconversions⟩ := exists_of_map_toOption hfound
  rw [hrun] at hdelivered
  have hpath : report.configPath = "/flow-ts-config.json" :=
    (configPath_of_plan hroot hrun).trans (by decide)
  have hreport : report.root = "/" := by
    obtain ⟨t, ht, -⟩ := exists_trail_of_plan hrun
    rw [ht.reported]
    exact Except.ok.inj (ht.root.symm.trans hroot)
  rw [← hreport] at hplain
  rw [← hpath] at hlink
  obtain ⟨-, tally, -, -, htally, -, hnodup, hlength, -⟩ :=
    conversions_of_plan hlegal hplain hlink hrun
  exact ⟨report, q, hrun, hdelivered, tally, htally,
    Option.some.inj (htally.symm.trans hconversions), hnodup, hlength⟩

/-- A repository where a link stands at the path at which its configuration is written first, and
leads to a file whose name would hold a backslash. -/
def misled : Disk :=
  ⟨.dir [("a", .dir [("b.js", .file "".toUTF8), ("package.json", .file "\x7b\x7d".toUTF8)]),
    ("flow-ts-config.json.tmp", .link "a\\b.js"),
    ("package.json", .file "\x7b\x7d".toUTF8)], []⟩

/-- **Links make a difference**: the file that is written through the link is found as one of
another package, and that is converted twice. -/
theorem not_conversions_of_plan_of_link :
    ¬∀ (settings : Settings) (c : Collaborators) (disk : Disk) (report : Report) (q : Progress),
      disk.Legal → disk.root.Throughout NoBackslash →
      plan settings (some c) { disk } = (.ok report, q) →
      ∃ tally, report.conversions = some tally ∧ (tally.converted ++ tally.failed).Nodup := by
  intro h
  have hlegal : misled.Legal := by decide +kernel
  have hplain : misled.root.Throughout NoBackslash := by decide +kernel
  have hfacts : (plan { root := some "/" } (some marking) { disk := misled }).1.toOption.map
      (·.conversions) = some (some ⟨[], ["a/b.js", "a/b.js"]⟩) := by decide +kernel
  obtain ⟨report, q, hrun, hboth⟩ := exists_of_map_toOption hfacts
  obtain ⟨tally, htally, hnodup⟩ := h _ _ _ _ _ hlegal hplain hrun
  rw [Option.some.inj (htally.symm.trans hboth)] at hnodup
  simp at hnodup

end Migration

end FlowMigration
