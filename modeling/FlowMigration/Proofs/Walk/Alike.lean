import FlowMigration.Proofs.Disk.Change
import FlowMigration.Walk

/-!
# Walks of disks that differ in some files

A walk asks only for the shape of the tree and for ignore files.

* `outline_below`: trees of one shape have the same walk, as far as names and kinds go.
* `ofDirectory_alike`: files that no link leads to and that are no ignore files themselves do not
  count in any layer.
* `outline_entries`: hence disks that differ in such files have the same walks.
-/

namespace FlowMigration

/-! ## Ignore files -/

namespace IgnoreLayer

variable {disk disk' : Disk} {P : List String → Prop} {name : String}

/-- The ignore files of a directory, by their paths from there. -/
def filePaths : List String := [".ignore", ".gitignore", ".git/info/exclude"]

/-- The names of the `filePaths`, the last ones on the way. -/
def fileNames : List String := [".ignore", ".gitignore", "exclude"]

theorem getLast?_pieces_filePaths {rel : String} (h : rel ∈ filePaths) :
    ∃ last ∈ fileNames, (Path.pieces rel.toList).getLast? = some last.toList := by
  revert rel
  decide

/-- **The layer of a directory** depends on its `filePaths`, faults in reading aside. -/
theorem ofDirectory_congr {dir : String}
    (h : ∀ rel ∈ filePaths, (disk'.readBytes (Path.join dir rel)).toOption =
      (disk.readBytes (Path.join dir rel)).toOption) (below : List String) :
    ofDirectory disk' dir below = ofDirectory disk dir below := by
  have hread : ∀ rel ∈ filePaths,
      readFile disk' (Path.join dir rel) = readFile disk (Path.join dir rel) := by
    intro rel hrel
    have hbytes := h rel hrel
    unfold readFile
    cases hb : disk.readBytes (Path.join dir rel) with
    | error e =>
      cases hb' : disk'.readBytes (Path.join dir rel) with
      | error e' => rfl
      | ok bytes =>
        rw [hb, hb'] at hbytes
        cases hbytes
    | ok bytes =>
      cases hb' : disk'.readBytes (Path.join dir rel) with
      | error e =>
        rw [hb, hb'] at hbytes
        cases hbytes
      | ok bytes' =>
        rw [hb, hb'] at hbytes
        cases hbytes
        rfl
  unfold ofDirectory
  rw [hread _ (by simp [filePaths]), hread _ (by simp [filePaths]), hread _ (by simp [filePaths])]

/-- No ignore file is a file of another name that is `Secluded`, so that no link leads to it. -/
theorem locate_ne_of_secluded (hP : Secluded disk.root name P) (hname : name ∉ fileNames)
    (dir : String) {rel : String} (hrel : rel ∈ filePaths) {c : List String} (hc : P c) :
    disk.locate (Path.join dir rel) ≠ .ok c := by
  intro hl
  obtain ⟨last, hlast, hpieces⟩ := getLast?_pieces_filePaths hrel
  have hpiece := Disk.getLast?_pieces_of_secluded hP hc hl
  rw [Path.getLast?_pieces_join, hpieces] at hpiece
  exact hname (String.toList_injective (Option.some.inj hpiece) ▸ hlast)

/-- Files of another name that are `Secluded` do not count in any layer. -/
theorem ofDirectory_alike (h : Disk.AlikeBut P disk disk') (hP : Secluded disk.root name P)
    (hname : name ∉ fileNames) (dir : String) (below : List String) :
    ofDirectory disk' dir below = ofDirectory disk dir below :=
  ofDirectory_congr (fun _ hrel => congrArg _
    (h.readBytes fun _ hc => locate_ne_of_secluded hP hname dir hrel hc)) below

end IgnoreLayer

/-! ## Walks -/

namespace Walk

/-- What the steps after a walk ask of the entry `e`. -/
def outline (e : WalkEntry) : List String × Bool := (e.names, e.node.isFile)

/-- A walk is steered by names and by what is a directory: `keep` asks nothing else. -/
def ByKind (keep : List String → Node → Bool) : Prop :=
  ∀ names node node', node.isDir = node'.isDir → keep names node = keep names node'

variable {disk disk' : Disk} {keep : List String → Node → Bool}

mutual

/-- **A walk asks only for the shape of the tree**: `below` on `disk'` has the outlines that it has
on `disk`. -/
theorem outline_below (hkeep : ByKind keep)
    (hlayers : ∀ dir below, IgnoreLayer.ofDirectory disk' dir below =
      IgnoreLayer.ofDirectory disk dir below)
    (layers : List IgnoreLayer) (place names : List String) :
    (entries : List (String × Node)) →
      (below disk' keep layers place names (Node.shapeEntries entries)).map outline =
        (below disk keep layers place names entries).map outline
  | [] => by rw [Node.shapeEntries, below, below]
  | entry :: rest => by
    rw [Node.shapeEntries, below, below, List.map_append, List.map_append,
      outline_belowEntry hkeep hlayers layers place names entry,
      outline_below hkeep hlayers layers place names rest]

theorem outline_belowEntry (hkeep : ByKind keep)
    (hlayers : ∀ dir below, IgnoreLayer.ofDirectory disk' dir below =
      IgnoreLayer.ofDirectory disk dir below)
    (layers : List IgnoreLayer) (place names : List String) :
    (entry : String × Node) →
      (belowEntry disk' keep layers place names (Node.shapeEntry entry)).map outline =
        (belowEntry disk keep layers place names entry).map outline
  | (name, .dir inside) => by
    have hk : keep (names ++ [name]) (.dir (Node.shapeEntries inside)) =
        keep (names ++ [name]) (.dir inside) := hkeep _ _ _ rfl
    rw [Node.shapeEntry, Node.shape, belowEntry, belowEntry, hk]
    split
    · rfl
    · rw [List.map_cons, List.map_cons, hlayers, outline_below hkeep hlayers _ _ _ inside]
      rfl
  | (name, .file content) => by
    have hk : keep (names ++ [name]) (.file .empty) = keep (names ++ [name]) (.file content) :=
      hkeep _ _ _ rfl
    rw [Node.shapeEntry, Node.shape, belowEntry, belowEntry, hk]
    · split <;> rfl
    · simp
    · simp
  | (name, .link target) => by
    rw [Node.shapeEntry, Node.shape, belowEntry, belowEntry]
    · simp
    · simp

end

/-- Trees of one `shape` have walks of one `outline`. -/
theorem outline_below_of_shape (hkeep : ByKind keep)
    (hlayers : ∀ dir below, IgnoreLayer.ofDirectory disk' dir below =
      IgnoreLayer.ofDirectory disk dir below)
    (layers : List IgnoreLayer) (place names : List String) {entries entries' : List (String × Node)}
    (h : Node.shapeEntries entries' = Node.shapeEntries entries) :
    (below disk' keep layers place names entries').map outline =
      (below disk keep layers place names entries).map outline := by
  rw [← outline_below hkeep hlayers layers place names entries, ← h,
    outline_below hkeep (fun _ _ => rfl) layers place names entries']

theorem isFile_shape (node : Node) : node.shape.isFile = node.isFile := by
  cases node <;> simp [Node.shape, Node.isFile]

theorem layersAbove_alike
    (hlayers : ∀ dir below, IgnoreLayer.ofDirectory disk' dir below =
      IgnoreLayer.ofDirectory disk dir below) (place : List String) :
    layersAbove disk' place = layersAbove disk place := by
  unfold layersAbove
  simp only [hlayers]

theorem entries_of_dir {start : String} {node : Node} {place : List String}
    {inside : List (String × Node)} (he : disk.entry start = .ok node)
    (hl : disk.locate start = .ok place) (hg : disk.root.get? place = some (.dir inside)) :
    entries disk keep start =
      if (layersAbove disk place).2.isEmpty then
        .ok (⟨[], node⟩ :: below disk keep
          ((IgnoreLayer.ofDirectory disk start []).1 :: (layersAbove disk place).1) place [] inside)
      else .error (.ignoreFiles (layersAbove disk place).2) := by
  simp [entries, he, hl, hg]

theorem entries_of_not_dir {start : String} {node : Node} {place : List String}
    (he : disk.entry start = .ok node) (hl : disk.locate start = .ok place)
    (hg : disk.root.kindAt place ≠ some .dir) : entries disk keep start = .ok [⟨[], node⟩] := by
  unfold Node.kindAt at hg
  cases hn : disk.root.get? place with
  | none => simp [entries, he, hl, hn]
  | some found => cases found <;> simp_all [entries, Node.kind]

/-- **Disks that differ in files have the same walks**, as far as the `outline` of an entry goes. -/
theorem outline_entries {P : List String → Prop} (h : Disk.AlikeBut P disk disk')
    (hkeep : ByKind keep)
    (hlayers : ∀ dir below, IgnoreLayer.ofDirectory disk' dir below =
      IgnoreLayer.ofDirectory disk dir below) (start : String) :
    (entries disk' keep start).map (·.map outline) =
      (entries disk keep start).map (·.map outline) := by
  have hentry := h.entry start
  have hloc := h.locate start
  cases he : disk.entry start with
  | error e =>
    rw [he] at hentry
    cases he' : disk'.entry start with
    | error e' =>
      rw [he'] at hentry
      cases hentry
      simp [entries, he, he', Except.map]
    | ok node' => rw [he'] at hentry; cases hentry
  | ok node =>
    rw [he] at hentry
    cases he' : disk'.entry start with
    | error e' => rw [he'] at hentry; cases hentry
    | ok node' =>
      rw [he'] at hentry
      have hown : outline ⟨[], node'⟩ = outline ⟨[], node⟩ := by
        have hshape : node'.shape = node.shape := Except.ok.inj hentry
        rw [outline, ← isFile_shape, hshape, isFile_shape, outline]
      cases hl : disk.locate start with
      | error e => simp [entries, he, he', hloc, hl, Except.map]
      | ok place =>
        rw [hl] at hloc
        by_cases hd : disk.root.kindAt place = some .dir
        · obtain ⟨inside, hg⟩ := Node.kindAt_eq_dir.1 hd
          obtain ⟨inside', hg'⟩ := Node.kindAt_eq_dir.1 (h.kindAt ▸ hd)
          have hshape := h.get? place
          rw [hg, hg', Option.map_some, Option.map_some, Node.shape, Node.shape] at hshape
          have hinside : Node.shapeEntries inside' = Node.shapeEntries inside :=
            Node.dir.inj (Option.some.inj hshape)
          rw [entries_of_dir he hl hg, entries_of_dir he' hloc hg', layersAbove_alike hlayers, hlayers]
          split
          · rw [Except.map, Except.map, List.map_cons, List.map_cons, hown,
              outline_below_of_shape hkeep hlayers _ _ _ hinside]
          · rfl
        · rw [entries_of_not_dir he hl hd, entries_of_not_dir he' hloc (h.kindAt ▸ hd)]
          rw [Except.map, Except.map, List.map_singleton, List.map_singleton, hown]

end Walk

end FlowMigration
