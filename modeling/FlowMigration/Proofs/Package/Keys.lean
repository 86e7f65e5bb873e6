import FlowMigration.Proofs.Package.Found
import FlowMigration.Proofs.Topology.Nesting
import FlowMigration.Proofs.Walk.Reach

/-!
# The keys of packages

A package has its directory for a key, or a dot at the root of the repository.

* `exists_names_of_load`: the names that lead to a manifest of a repository.
* `nodup_keys`: the packages of a repository have distinct keys. No directory can be called a dot,
  and a backslash in a name, which the path of a manifest shows as a slash, makes none.
-/

namespace FlowMigration

namespace Path

/-- The segments of the path of `name` in the directory `dirs`. -/
theorem dropLast_segments_forwardSlashes {dirs : List String} (hne : dirs ≠ []) {name : String}
    (hslash : '/' ∉ name.toList) (hback : '\\' ∉ name.toList) :
    (segments (forwardSlashes (ofSegments (dirs ++ [name])))).dropLast =
      segments (forwardSlashes (ofSegments dirs)) := by
  have hplain : name.toList.map (fun c => if c = '\\' then '/' else c) = name.toList := by
    refine (List.map_congr_left fun c hc => if_neg ?_).trans (List.map_id' _)
    rintro rfl
    exact hback hc
  have htext : (forwardSlashes (ofSegments (dirs ++ [name]))).toList =
      (forwardSlashes (ofSegments dirs)).toList ++ '/' :: name.toList := by
    have hdirs : dirs.map String.toList ≠ [] := by simpa using hne
    rw [forwardSlashes, forwardSlashes, String.toList_map, String.toList_map, toList_ofSegments,
      toList_ofSegments, List.map_append, List.map_singleton, unpieces_concat hdirs,
      List.map_append, List.map_cons, hplain]
    rfl
  rw [segments, htext, pieces_append_slash, pieces_of_no_slash hslash, List.map_append,
    List.map_singleton, List.dropLast_concat, segments]

theorem forwardSlashes_ofSegments_ne_here {names : List String} (hne : names ≠ [])
    (h : ∀ n ∈ names, IsName n) : forwardSlashes (ofSegments names) ≠ "." := by
  intro hdot
  have htext := congrArg String.toList hdot
  rw [forwardSlashes, String.toList_map] at htext
  obtain ⟨c, hc, hone⟩ : ∃ c, (ofSegments names).toList = [c] ∧
      (if c = '\\' then '/' else c) = '.' := by
    cases hcs : (ofSegments names).toList with
    | nil => simp [hcs] at htext
    | cons c rest =>
      rw [hcs, List.map_cons] at htext
      obtain ⟨hhead, hrest⟩ := List.cons.inj htext
      exact ⟨c, by rw [List.map_eq_nil_iff.1 hrest], hhead⟩
  have hplain : ofSegments names = "." := by
    apply String.toList_injective
    rw [hc]
    split at hone
    · exact absurd hone (by decide)
    · rw [hone]
      rfl
  have hnames : names = ["."] := by
    rw [← segments_ofNames hne h, hplain]
    decide
  exact (h "." (by simp [hnames])).ne_here rfl

end Path

/-! ## Manifests of a repository -/

namespace ManifestRecord

variable {disk : Disk} {root : String} {records : List ManifestRecord} {record : ManifestRecord}

/-- **The names that lead to the manifest** of a `record` that was loaded. -/
theorem exists_names_of_load (hw : disk.root.WellFormed) (hload : load disk root = .ok records)
    (hr : record ∈ records) :
    ∃ names, record = ofNames disk root names ∧ root ≠ "" ∧ (∀ n ∈ names, LegalName n) ∧
      lastName? root names = some Manifest.fileName := by
  obtain ⟨walked, w, hwalk, hwmem, -, hlast, rfl⟩ := mem_load hload hr
  obtain ⟨place, hplace⟩ := Walk.located_of_entries hwalk
  refine ⟨w.names, rfl, (Disk.locate_eq_ok.1 hplace).2.1, ?_, hlast⟩
  rcases Walk.mem_entries hw hwalk hwmem with ⟨hnil, -⟩ | ⟨place, inside, -, hin, hg, -⟩
  · simp [hnil]
  · exact (hw.get? hin).legal hg

theorem dirSegments_ne_here (hw : disk.root.WellFormed) (hload : load disk root = .ok records)
    (hr : record ∈ records) : record.dirSegments ≠ ["."] := by
  obtain ⟨names, rfl, hroot, hlegal, hlast⟩ := exists_names_of_load hw hload hr
  have hnames : ∀ n ∈ names, Path.IsName n := fun n hn => (hlegal n hn).toIsName
  have hpath : (ofNames disk root names).path = Path.forwardSlashes (Path.ofSegments names) := by
    rw [ofNames, Path.relativeUnix, Path.relativeTo?_joinAll hroot hnames, Option.getD_some]
  rw [dirSegments, hpath]
  rcases List.eq_nil_or_concat names with rfl | ⟨dirs, last, rfl⟩
  · rw [Path.forwardSlashes_of_not_mem (by decide)]
    decide
  · rw [List.concat_eq_append] at hnames hlast ⊢
    obtain rfl : last = Manifest.fileName := by simpa [lastName?] using hlast
    by_cases hdirs : dirs = []
    · subst hdirs
      rw [Path.forwardSlashes_of_not_mem (by decide)]
      decide
    · rw [Path.dropLast_segments_forwardSlashes hdirs (by decide) (by decide)]
      intro he
      refine Path.forwardSlashes_ofSegments_ne_here hdirs
        (fun n hn => hnames n (List.mem_append_left _ hn)) ?_
      rw [← Path.ofSegments_segments (Path.forwardSlashes _), he]
      decide

end ManifestRecord

/-! ## Keys -/

namespace Topology

/-- Packages `e` and `f` whose places are written without slashes and dots are known from their
keys. -/
theorem parts_eq_of_key_eq {e f : TopologyEntry}
    (he : e.parts ≠ ["."] ∧ ∀ s ∈ e.parts, '/' ∉ s.toList)
    (hf : f.parts ≠ ["."] ∧ ∀ s ∈ f.parts, '/' ∉ s.toList) (h : e.key = f.key) :
    e.parts = f.parts := by
  have hroot : ∀ {g : TopologyEntry}, g.parts ≠ ["."] → (∀ s ∈ g.parts, '/' ∉ s.toList) →
      g.parts ≠ [] → Path.ofSegments g.parts ≠ TopologyEntry.rootKey := by
    intro g hdot hslash hne hkey
    refine hdot (Path.ofSegments_inj hne (List.cons_ne_nil _ _) hslash (by simp) ?_)
    rw [hkey]
    decide
  unfold TopologyEntry.key TopologyEntry.isRoot TopologyEntry.dirPath at h
  by_cases hen : e.parts = [] <;> by_cases hfn : f.parts = []
  · rw [hen, hfn]
  · simp only [hen, hfn, List.isEmpty_nil, List.isEmpty_iff, if_true, if_false] at h
    exact absurd h.symm (hroot hf.1 hf.2 hfn)
  · simp only [hen, hfn, List.isEmpty_nil, List.isEmpty_iff, if_true, if_false] at h
    exact absurd h (hroot he.1 he.2 hen)
  · simp only [hen, hfn, List.isEmpty_iff, if_false] at h
    exact Path.ofSegments_inj hen hfn he.2 hf.2 h

/-- **The packages of a repository have distinct keys**, as `build` comes to them. -/
theorem nodup_keys {disk : Disk} {root : String} {records : List ManifestRecord}
    (hw : disk.root.WellFormed) (hload : ManifestRecord.load disk root = .ok records) :
    ((build records).map (·.key)).Nodup := by
  have hplain : ∀ e ∈ build records, e.parts ≠ ["."] ∧ ∀ s ∈ e.parts, '/' ∉ s.toList := by
    intro e he
    obtain ⟨hmem, hdir⟩ := mem_records_of_mem_build he
    rw [← hdir]
    exact ⟨ManifestRecord.dirSegments_ne_here hw hload hmem,
      fun s hs => Path.no_slash_of_mem_segments (List.dropLast_subset _ hs)⟩
  have hparts := List.pairwise_map.1 (nested_build records).nodup
  refine List.pairwise_map.2 (hparts.imp_of_mem fun {e f} he hf hne hkey => hne ?_)
  exact parts_eq_of_key_eq (hplain e he) (hplain f hf) hkey

end Topology

end FlowMigration
