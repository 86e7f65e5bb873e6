import FlowMigration.Proofs.Package.Places
import FlowMigration.Proofs.Package.Returned
import FlowMigration.Proofs.Registry
import FlowMigration.Proofs.Text.Bytes
import FlowMigration.Proofs.Walk.Order

/-!
# The manifests of a repository

Which manifests are found below the root of a repository, in which order, and what their records
say.

* `ManifestRecord.discover_eq`: the manifests are the files of their name that a walk comes to and
  that no dependency is around.
* `Holds`: a record says what its file holds.
* `ManifestRecord.load_discovers`: one record for each manifest, in the order of the names that lead
  to them; so of several manifests with one name the first in this order owns it.
-/

namespace FlowMigration

/-- The order of paths by their segments, which are compared by their bytes. -/
def Path.Before (path path' : String) : Prop :=
  List.Lex (fun s t => Glob.bytes s < Glob.bytes t) (segments path) (segments path')

theorem Path.before_of_lt {path path' : String} (h : segments path < segments path') :
    Before path path' := by
  have hbytes : ∀ {segs segs' : List String}, List.Lex (· < ·) segs segs' →
      List.Lex (fun s t => Glob.bytes s < Glob.bytes t) segs segs' := by
    intro segs segs' hlex
    induction hlex with
    | nil => exact .nil
    | rel hlt => exact .rel (Text.bytes_lt hlt)
    | cons _ ih => exact .cons ih
  exact hbytes h

/-- The names of the directories below `place` hold no backslash. Those of files may. -/
def Disk.PlainFolders (disk : Disk) (place : List String) : Prop :=
  ∀ names, disk.root.kindAt (place ++ names) = some .dir → ∀ n ∈ names, '\\' ∉ n.toList

/-- Where no name at all holds a backslash, the folders at `place` are plain. -/
theorem Disk.plainFolders_of_node {disk : Disk} {root : String} {place : List String}
    (hplain : ∀ node, disk.node root = .ok node → node.Throughout NoBackslash)
    (hl : disk.locate root = .ok place) : disk.PlainFolders place := by
  intro names hd
  obtain ⟨es, hes⟩ := Node.kindAt_eq_dir.1 hd
  rw [Node.get?_append] at hes
  obtain ⟨top, htop, hes⟩ := Option.bind_eq_some_iff.1 hes
  have hnode : disk.node root = .ok top := by simp [Disk.node, hl, htop]
  exact (hplain top hnode).no_backslash hes

namespace ManifestRecord

/-- The entry `e` is the file of a manifest, on whose way nothing is named like the directory of
dependencies. -/
def IsManifest (e : WalkEntry) : Prop :=
  e.node.isFile = true ∧ e.names.getLast? = some Manifest.fileName ∧
    Manifest.dependencyDir ∉ e.names

instance : DecidablePred IsManifest := fun _ => inferInstanceAs (Decidable (_ ∧ _))

/-- The record `r` of a file `e`: its path, and what the file holds or that it cannot be read. -/
structure Holds (disk : Disk) (root : String) (e : WalkEntry) (r : ManifestRecord) : Prop where
  path : Path.segments r.path = e.names
  hasErrors : r.hasErrors = true ↔ ∀ m, Manifest.ofFile disk (Path.join root r.path) ≠ .ok m
  /-- What is read depends on the content of the file alone. -/
  manifest : ∀ m, r.manifest = .ok m ↔ ∃ content text, e.node = .file content ∧
    String.fromUTF8? content = some text ∧ Manifest.parse text = .ok m

section

variable {disk : Disk} {root : String} {found full : List WalkEntry} {e : WalkEntry}

/-- **The walk for manifests** comes to everything in `full` that is not inside of dependencies. -/
theorem mem_walked_iff (hw : disk.root.WellFormed)
    (hfound : Walk.entries disk (fun names _ => reaches names) root = .ok found)
    (hfull : Walk.entries disk Walk.everything root = .ok full) :
    e ∈ found ↔ e ∈ full ∧ Manifest.dependencyDir ∉ e.names := by
  have hreaches : ∀ names, reaches names = true ↔ names.getLast? ≠ some Manifest.dependencyDir := by
    simp [reaches]
  have hiff : e ∈ found ↔ _ := Walk.mem_entries_iff_full hw hfound hfull
  constructor
  · intro he
    refine ⟨(hiff.1 he).1, PlainRepository.forall_getLast?_ne.1 fun front hne hpre => ?_⟩
    rcases Walk.mem_entries hw hfound he with ⟨hnil, -⟩ | ⟨_, _, -, -, -, hkept⟩
    · exact absurd (List.prefix_nil.1 (hnil ▸ hpre)) hne
    · obtain ⟨_, -, hkeep⟩ := hkept front hne hpre
      exact (hreaches front).1 hkeep
  · rintro ⟨he, hout⟩
    refine hiff.2 ⟨he, fun x _ hne hpre => (hreaches x.names).2 ?_⟩
    exact PlainRepository.forall_getLast?_ne.2 hout x.names hne hpre

variable (hw : disk.root.WellFormed) (hdir : disk.isDir root = true)

include hw hdir

theorem names_ne_nil {keep : List String → Node → Bool}
    (hwalk : Walk.entries disk keep root = .ok found) (he : e ∈ found)
    (hfile : e.node.isFile = true) : e.names ≠ [] := by
  intro hnil
  obtain ⟨place, hplace, hkind⟩ := PackageScope.kindAt_of_isDir hdir
  obtain ⟨content, hcontent⟩ := PackageScope.exists_content_of_isFile hfile
  rcases Walk.mem_entries hw hwalk he with ⟨-, hentry⟩ | ⟨place', inside, -, -, hnode, -⟩
  · obtain ⟨here, hhere, hnode⟩ := Disk.locate_of_entry hw (hcontent ▸ hentry)
    obtain rfl := Except.ok.inj (hplace.symm.trans hhere)
    rw [Node.kindAt_eq_file.2 ⟨content, hnode⟩] at hkind
    cases hkind
  · rw [hnil, Node.get?_nil, hcontent] at hnode
    cases hnode

/-- **The manifests that `discover` comes to** are the files of their name outside of dependencies,
in the order of a walk that comes to everything. -/
theorem discover_eq (hfull : Walk.entries disk Walk.everything root = .ok full) :
    discover disk root = .ok ((full.filter IsManifest).map (·.names)) := by
  have hok := Walk.isOk_entries_full disk (fun names _ => reaches names) root
  rw [hfull] at hok
  obtain ⟨found, hfound⟩ : ∃ found,
      Walk.entries disk (fun names _ => reaches names) root = .ok found := by
    cases hwalk : Walk.entries disk (fun names _ => reaches names) root with
    | ok found => exact ⟨found, rfl⟩
    | error error =>
      rw [hwalk] at hok
      cases hok
  have hasked : ∀ {x}, x ∈ found → x.node.isFile = true →
      lastName? root x.names = x.names.getLast? := by
    intro x hx hfile
    rw [lastName?, List.getLast?_eq_some_getLast (names_ne_nil hw hdir hfound hx hfile)]
  have hsame : (found.filter fun x =>
      x.node.isFile && lastName? root x.names == some Manifest.fileName) =
      full.filter IsManifest := by
    refine Walk.eq_of_ascending ((Walk.ascending_entries hw hfound).filter _)
      ((Walk.ascending_entries hw hfull).filter _) fun x => ?_
    rw [List.mem_filter, List.mem_filter, decide_eq_true_iff, Bool.and_eq_true, beq_iff_eq, IsManifest,
      mem_walked_iff hw hfound hfull]
    constructor
    · rintro ⟨⟨hx, hout⟩, hfile, hlast⟩
      refine ⟨hx, hfile, ?_, hout⟩
      rw [← hasked ((mem_walked_iff hw hfound hfull).2 ⟨hx, hout⟩) hfile]
      exact hlast
    · rintro ⟨hx, hfile, hlast, hout⟩
      refine ⟨⟨hx, hout⟩, hfile, ?_⟩
      rw [hasked ((mem_walked_iff hw hfound hfull).2 ⟨hx, hout⟩) hfile]
      exact hlast
  rw [discover, hfound]
  dsimp only
  rw [hsame]

end

/-! ## Records -/

theorem segments_of_holds {disk : Disk} {root : String} {es : List WalkEntry}
    {records : List ManifestRecord} (h : List.Forall₂ (Holds disk root) es records) :
    records.map (fun r => Path.segments r.path) = es.map (·.names) := by
  induction h with
  | nil => rfl
  | cons hfirst _ ih => rw [List.map_cons, List.map_cons, ih, hfirst.path]

/-- The `owner` of a name comes before the others that declare it. -/
theorem FirstToDeclare.before {records : List ManifestRecord} {name : String}
    {owner r : ManifestRecord} (howner : FirstToDeclare records name owner)
    (hordered : records.Pairwise fun r r' => Path.Before r.path r'.path) (hr : r ∈ records)
    (hdeclares : r.Declares name) : r = owner ∨ Path.Before owner.path r.path := by
  obtain ⟨front, rest, rfl, -, hfront⟩ := howner
  rcases List.mem_append.1 hr with hr | hr
  · exact absurd hdeclares (hfront r hr)
  · have hrest := (List.pairwise_cons.1 (List.pairwise_append.1 hordered).2.1).1
    exact (List.mem_cons.1 hr).imp_right (hrest r)

section

variable {disk : Disk} {root : String} (hw : disk.root.WellFormed)
  (hdir : disk.isDir root = true)

include hw hdir

/-- **The path of a manifest** has the names that lead to its file, if the folders at `place` are
plain. -/
theorem segments_ofNames {place : List String} (hl : disk.locate root = .ok place)
    (hfolders : disk.PlainFolders place) {full : List WalkEntry}
    (hfull : Walk.entries disk Walk.everything root = .ok full) {e : WalkEntry} (he : e ∈ full)
    (hmanifest : IsManifest e) : Path.segments (ofNames disk root e.names).path = e.names := by
  have hne := names_ne_nil hw hdir hfull he hmanifest.1
  obtain ⟨place', inside, hplace, hinside, hnode, -⟩ :=
    (Walk.mem_entries hw hfull he).resolve_left fun h => hne h.1
  obtain rfl : place = place' := Except.ok.inj (hl.symm.trans hplace)
  have hget : disk.root.get? (place ++ e.names) = some e.node := by
    rw [Node.get?_append, hinside, Option.bind_some, hnode]
  have hnames : ∀ n ∈ e.names, Path.IsName n := fun n hn =>
    (hw.legal hget n (List.mem_append_right _ hn)).toIsName
  -- the last name is that of manifests, and those before it lead through directories
  obtain ⟨front, hfront⟩ := List.getLast?_eq_some_iff.1 hmanifest.2.1
  have hback : ∀ n ∈ e.names, '\\' ∉ n.toList := by
    rw [hfront, ← List.append_assoc] at hget
    have hkind : disk.root.kindAt (place ++ front) = some .dir :=
      Node.kindAt_above (List.cons_ne_nil Manifest.fileName [])
        (by rw [Node.kindAt, hget, Option.map_some])
    intro n hn
    rw [hfront, List.mem_append] at hn
    rcases hn with hn | hn
    · exact hfolders front hkind n hn
    · rw [List.mem_singleton.1 hn]
      decide
  rw [ofNames, Path.relativeUnix_joinAll (Disk.locate_eq_ok.1 hl).2.1 hnames hback,
    Path.segments_ofNames hne hnames]

/-- **Records that are loaded** stand in the order of the names that lead to their manifests, if the
folders at `place` are plain. -/
theorem ascending_of_load {place : List String} (hl : disk.locate root = .ok place)
    (hfolders : disk.PlainFolders place) {records : List ManifestRecord}
    (hload : load disk root = .ok records) :
    (records.map fun r => Path.segments r.path).Pairwise (· < ·) := by
  have hok := Walk.isOk_entries_full disk (fun names _ => reaches names) root
  cases hfull : Walk.entries disk Walk.everything root with
  | error error =>
    rw [hfull] at hok
    obtain ⟨found, hfound, -⟩ := load_eq_ok.1 hload
    obtain ⟨walked, hwalk, -⟩ := discover_eq_ok.1 hfound
    rw [hwalk] at hok
    cases hok
  | ok full =>
    rw [load, discover_eq hw hdir hfull] at hload
    cases hload
    have hnames : ∀ e ∈ full.filter IsManifest,
        Path.segments (ofNames disk root e.names).path = e.names := by
      intro e he
      obtain ⟨he, hmanifest⟩ := List.mem_filter.1 he
      exact segments_ofNames hw hdir hl hfolders hfull he (decide_eq_true_iff.1 hmanifest)
    rw [List.map_map, List.map_map]
    refine (List.map_congr_left hnames) ▸ ?_
    exact List.pairwise_map.2 ((Walk.ascending_entries hw hfull).filter _)

end

section

variable {disk : Disk} {root : String} (hw : disk.root.WellFormed)
  (hplain : ∀ node, disk.node root = .ok node → node.Throughout NoBackslash)
  (hdir : disk.isDir root = true)

include hw hplain hdir

theorem ascending_of_plain {records : List ManifestRecord} (hload : load disk root = .ok records) :
    (records.map fun r => Path.segments r.path).Pairwise (· < ·) := by
  obtain ⟨found, hfound, -⟩ := load_eq_ok.1 hload
  obtain ⟨walked, hwalk, -⟩ := discover_eq_ok.1 hfound
  obtain ⟨place, hl⟩ := Walk.located_of_entries hwalk
  exact ascending_of_load hw hdir hl (Disk.plainFolders_of_node hplain hl) hload

/-- **The record of a manifest** says what its file holds: it `Holds` the file. -/
theorem holds_ofNames {full : List WalkEntry}
    (hfull : Walk.entries disk Walk.everything root = .ok full) {e : WalkEntry} (he : e ∈ full)
    (hmanifest : IsManifest e) : Holds disk root e (ofNames disk root e.names) := by
  obtain ⟨content, hcontent⟩ := PackageScope.exists_content_of_isFile hmanifest.1
  obtain ⟨place, hplace⟩ := Walk.located_of_entries hfull
  have hreturned := PackageScope.leads_back_of_walk hw hplain hdir (PackageScope.folder_root hdir) hfull
    he hcontent
  obtain ⟨hjoin, hread⟩ : Path.join root (ofNames disk root e.names).path =
      Path.joinAll root e.names ∧ disk.readBytes (Path.joinAll root e.names) = .ok content := hreturned
  have hfile : ∀ m, (ofNames disk root e.names).manifest = .ok m ↔
      Manifest.ofFile disk (Path.joinAll root e.names) = .ok m := by
    intro m
    rw [ofNames]
    cases Manifest.ofFile disk (Path.joinAll root e.names) <;> simp [Except.mapError]
  refine ⟨segments_ofNames hw hdir hplace (Disk.plainFolders_of_node hplain hplace) hfull he hmanifest,
    ?_, fun m => ?_⟩
  · rw [hasErrors_iff, hjoin]
    exact forall_congr' fun m => not_congr (hfile m)
  · rw [hfile, Manifest.ofFile_eq_ok, hread, hcontent]
    simp

/-- **Manifests are discovered completely, once each and in order.** Where the `full` walk of a
repository succeeds, there is one of the `records` for each file of a manifest that it comes to
outside of dependencies (`IsManifest`), in the order of the names that lead to them; each says what
its own file holds. So among the manifests that declare a `name` the first in this order owns it. -/
theorem load_discovers {full : List WalkEntry}
    (hfull : Walk.entries disk Walk.everything root = .ok full) :
    ∃ records, load disk root = .ok records ∧
      List.Forall₂ (Holds disk root) (full.filter IsManifest) records ∧
      (records.Pairwise fun r r' => Path.Before r.path r'.path) ∧
      ∀ name, name ≠ "" → (∃ r ∈ records, r.Declares name) →
        ∃ owner ∈ records, (Registry.build records).get? name = some owner ∧ owner.Declares name ∧
          ∀ r ∈ records, r.Declares name → r = owner ∨ Path.Before owner.path r.path := by
  have hload : load disk root =
      .ok (((full.filter IsManifest).map (·.names)).map (ofNames disk root)) := by
    rw [load, discover_eq hw hdir hfull]
  have hholds : List.Forall₂ (Holds disk root) (full.filter IsManifest)
      (((full.filter IsManifest).map (·.names)).map (ofNames disk root)) := by
    rw [List.forall₂_map_right_iff, List.forall₂_map_right_iff, List.forall₂_same]
    intro e he
    obtain ⟨he, hmanifest⟩ := List.mem_filter.1 he
    exact holds_ofNames hw hplain hdir hfull he (decide_eq_true_iff.1 hmanifest)
  generalize ((full.filter IsManifest).map (·.names)).map (ofNames disk root) = records at hload hholds
  have hordered : records.Pairwise fun r r' => Path.Before r.path r'.path := by
    have hnames : (records.map fun r => Path.segments r.path).Pairwise (· < ·) := by
      rw [segments_of_holds hholds]
      exact List.pairwise_map.2 ((Walk.ascending_entries hw hfull).filter _)
    exact (List.pairwise_map.1 hnames).imp Path.before_of_lt
  refine ⟨records, hload, hholds, hordered, fun name hne hsome => ?_⟩
  obtain ⟨owner, howner⟩ := exists_firstToDeclare hsome
  obtain ⟨front, rest, hsplit, hdeclares, -⟩ := id howner
  exact ⟨owner, by simp [hsplit], (Registry.get?_build_eq_some hne).2 howner, hdeclares,
    fun r hr => howner.before hordered hr⟩

end

/-- A repository with two manifests of one name, one inside of dependencies and one that cannot be
read. -/
def repeatedRepository : Disk :=
  let named : Node := .file ⟨#[123, 34, 110, 97, 109, 101, 34, 58, 34, 110, 34, 125]⟩
  ⟨.dir [("a", .dir [("node_modules", .dir [("package.json", named)]),
      ("x", .dir [("package.json", named)])]),
    ("a-b", .dir [("package.json", named)]), ("package.json", .file ⟨#[123]⟩)], []⟩

/-- The name is owned by the manifest below `a`, though `a-b/package.json` is the smaller text. -/
theorem load_discovers_repeated :
    repeatedRepository.root.WellFormed ∧
      (∀ node, repeatedRepository.node "/" = .ok node → node.Throughout NoBackslash) ∧
      repeatedRepository.isDir "/" = true ∧
      ∃ full, Walk.entries repeatedRepository Walk.everything "/" = .ok full ∧
        ∃ records, load repeatedRepository "/" = .ok records ∧
          List.Forall₂ (Holds repeatedRepository "/") (full.filter IsManifest) records ∧
          records.map (fun r => (r.path, r.hasErrors)) = [("a/x/package.json", false),
            ("a-b/package.json", false), ("package.json", true)] ∧
          ((Registry.build records).get? "n").map (·.path) = some "a/x/package.json" := by
  have hw : repeatedRepository.root.WellFormed := by decide +kernel
  have hplain : ∀ node, repeatedRepository.node "/" = .ok node → node.Throughout NoBackslash :=
    fun _ => Disk.throughout_of_node (by decide +kernel)
  have hdir : repeatedRepository.isDir "/" = true := by decide +kernel
  have hwalk : (Walk.entries repeatedRepository Walk.everything "/").isOk = true := by decide +kernel
  have hload : (load repeatedRepository "/").toOption.map (fun records =>
      (records.map (fun r => (r.path, r.hasErrors)),
        ((Registry.build records).get? "n").map (·.path))) =
      some ([("a/x/package.json", false), ("a-b/package.json", false), ("package.json", true)],
        some "a/x/package.json") := by decide +kernel
  obtain ⟨full, hfull⟩ := isOk_iff.1 hwalk
  obtain ⟨records, hrecords, hholds, -, -⟩ := load_discovers hw hplain hdir hfull
  rw [hrecords] at hload
  obtain ⟨hpaths, howner⟩ := Prod.mk.inj (Option.some.inj hload)
  exact ⟨hw, hplain, hdir, full, hfull, records, hrecords, hholds, hpaths, howner⟩

end ManifestRecord

end FlowMigration
