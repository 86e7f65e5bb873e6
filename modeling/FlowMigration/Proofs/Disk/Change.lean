import FlowMigration.Proofs.Disk.Follow

/-!
# A file is written

What a new or a changed file at one place (`Disk.withFile`) means for paths and for reading.

* `GrownAt`: beside the places of the files nothing changes its kind. Paths lead on as before
  (`follow_grownAt`), and only to the files themselves they may lead anew (`follow_of_grownAt`);
  `Grown`: the same for one file.
* `Node.shape`: a tree without the contents of its files. A file that is only changed keeps it
  (`shape_put`).
* `NoLinkTo`: no symbolic link leads to a place. Then a path leads there by its last piece
  (`getLast?_pieces_of_locate`).
* `Disk.AlikeBut`: disks that differ in what is in some files read the same elsewhere
  (`AlikeBut.readBytes`); `Disk.Alike`: disks that differ in one file.
* `Secluded`: files of one name that no link leads to.
-/

namespace FlowMigration

/-! ## Nodes beside the file -/

namespace Node

/-- Room for a file called `name`: its directory is there, and at most a file stands at its
place. -/
structure Room (root : Node) (here : List String) (name : String) : Prop where
  home : root.kindAt here = some .dir
  free : root.kindAt (here ++ [name]) = none ∨ root.kindAt (here ++ [name]) = some .file

variable {root : Node} {here : List String} {name : String}

theorem Room.below (h : root.Room here name) {rest : List String} (hrest : rest ≠ []) :
    root.get? (here ++ [name] ++ rest) = none := by
  cases hg : root.get? (here ++ [name] ++ rest) with
  | none => rfl
  | some node =>
    have hdir := kindAt_eq_dir.2 (exists_dir_of_get? hrest hg)
    rcases h.free with hf | hf <;> rw [hf] at hdir <;> cases hdir

theorem get?_put_file (h : root.Room here name) (content : ByteArray) :
    (put (.file content) root (here ++ [name])).get? (here ++ [name]) = some (.file content) := by
  obtain ⟨es, hes⟩ := kindAt_eq_dir.1 h.home
  exact get?_put_self hes _ _

/-- Beside the place of a file that is `put` in there stands what stood there, or still a
directory. -/
theorem get?_put_file_of_ne (h : root.Room here name) (content : ByteArray) {q : List String}
    (hq : q ≠ here ++ [name]) :
    (put (.file content) root (here ++ [name])).get? q = root.get? q ∨
      (∃ es, (put (.file content) root (here ++ [name])).get? q = some (.dir es)) ∧
        ∃ es, root.get? q = some (.dir es) := by
  by_cases hbelow : here ++ [name] <+: q
  · -- below the file there is nothing, before and after
    obtain ⟨rest, rfl⟩ := hbelow
    have hrest : rest ≠ [] := by
      rintro rfl
      exact hq (List.append_nil _)
    refine .inl ?_
    rw [h.below hrest, get?_append, get?_put_file h, Option.bind_some]
    obtain ⟨n, more, rfl⟩ := List.exists_cons_of_ne_nil hrest
    exact get?_cons_of_not_dir rfl n more
  · by_cases habove : q <+: here ++ [name]
    · obtain ⟨rest, hrest⟩ := habove
      have hne : rest ≠ [] := by
        rintro rfl
        rw [List.append_nil] at hrest
        exact hq hrest
      have hdir : ∃ es, root.get? q = some (.dir es) := by
        obtain ⟨es, hes⟩ := kindAt_eq_dir.1 h.home
        rcases List.eq_nil_or_concat rest with rfl | ⟨init, last, rfl⟩
        · exact absurd rfl hne
        rw [List.concat_eq_append, ← List.append_assoc] at hrest
        obtain ⟨rfl, -⟩ := List.append_inj' hrest rfl
        by_cases hinit : init = []
        · exact ⟨es, by simpa [hinit] using hes⟩
        · exact exists_dir_of_get? hinit hes
      obtain ⟨es, hes⟩ := hdir
      refine .inr ⟨?_, es, hes⟩
      rw [← hrest]
      exact exists_dir_put hne hes _
    · exact .inl (get?_put_of_ne hbelow habove)

/-! ## Growing trees -/

/-- Beside the places of `P` nothing has changed its kind, and files stand there now. -/
structure GrownAt (P : List String → Prop) (root root' : Node) : Prop where
  same : ∀ q, ¬P q → root'.kindAt q = root.kindAt q
  file : ∀ q, P q → root'.kindAt q = some .file
  free : ∀ q, P q → root.kindAt q = none ∨ root.kindAt q = some .file

/-- Beside the place `c` nothing has changed its kind, and a file stands there now. -/
structure Grown (c : List String) (root root' : Node) : Prop where
  same : ∀ q, q ≠ c → root'.kindAt q = root.kindAt q
  file : root'.kindAt c = some .file
  free : root.kindAt c = none ∨ root.kindAt c = some .file

theorem Grown.grownAt {c : List String} {root' : Node} (h : Grown c root root') :
    GrownAt (· = c) root root' :=
  ⟨h.same, fun _ hq => hq ▸ h.file, fun _ hq => hq ▸ h.free⟩

theorem grown_put (h : root.Room here name) (content : ByteArray) :
    Grown (here ++ [name]) root (put (.file content) root (here ++ [name])) := by
  refine ⟨fun q hq => ?_, kindAt_eq_file.2 ⟨content, get?_put_file h content⟩, h.free⟩
  rcases get?_put_file_of_ne h content hq with he | ⟨hd, hd'⟩
  · rw [kindAt, he, kindAt]
  · rw [kindAt_eq_dir.2 hd, kindAt_eq_dir.2 hd']

theorem GrownAt.kindAt {P : List String → Prop} {root' : Node} (h : GrownAt P root root')
    {q : List String} {k : NodeKind} (hk : root.kindAt q = some k) : root'.kindAt q = some k := by
  by_cases hq : P q
  · rcases h.free q hq with hf | hf <;> rw [hf] at hk <;> cases hk
    exact h.file q hq
  · rw [h.same q hq, hk]

theorem GrownAt.kindAt_dir {P : List String → Prop} {root' : Node} (h : GrownAt P root root')
    {q : List String} : root'.kindAt q = some .dir ↔ root.kindAt q = some .dir := by
  refine ⟨fun hd => ?_, h.kindAt⟩
  have hq : ¬P q := by
    intro hq
    rw [h.file q hq] at hd
    cases hd
  rwa [← h.same q hq]

theorem Grown.kindAt {c : List String} {root' : Node} (h : Grown c root root') {q : List String}
    {k : NodeKind} (hk : root.kindAt q = some k) : root'.kindAt q = some k :=
  h.grownAt.kindAt hk

end Node

namespace Disk

variable {root root' : Node} {c : List String} {P : List String → Prop}

/-- **Paths lead on as before** a tree has `GrownAt` some places. -/
theorem follow_grownAt (h : Node.GrownAt P root root') {links : Nat} {here place : List String}
    {todo : List (List Char)} (hf : follow root links here todo = .ok place) :
    follow root' links here todo = .ok place := by
  induction links, here, todo using follow_induction root.kindAt with
  | nil links here =>
    rw [follow_nil] at hf ⊢
    exact hf
  | cons links here piece rest ih =>
    obtain ⟨left, next, more, hl, hf⟩ := follow_cons_ok.1 hf
    refine follow_cons_ok.2 ⟨left, next, more, ?_, ih left next more (step_eq_ok.2 hl) hf⟩
    cases hl with
    | idle hd hp => exact .idle (h.kindAt hd) hp
    | up hd hp => exact .up (h.kindAt hd) hp
    | entry hd hp hk => exact .entry (h.kindAt hd) hp (hk.imp h.kindAt h.kindAt)
    | link hd hp hk ht => exact .link (h.kindAt hd) hp (h.kindAt hk) ht

/-- **Only to the files at `P`** paths may lead that led nowhere before. -/
theorem follow_of_grownAt (h : Node.GrownAt P root root') {links : Nat} {here place : List String}
    {todo : List (List Char)} (hplace : ¬P place)
    (hf : follow root' links here todo = .ok place) : follow root links here todo = .ok place := by
  induction links, here, todo using follow_induction root'.kindAt with
  | nil links here =>
    rw [follow_nil] at hf ⊢
    exact hf
  | cons links here piece rest ih =>
    obtain ⟨left, next, more, hl, hf⟩ := follow_cons_ok.1 hf
    refine follow_cons_ok.2 ⟨left, next, more, ?_, ih left next more (step_eq_ok.2 hl) hf⟩
    cases hl with
    | idle hd hp => exact .idle (h.kindAt_dir.1 hd) hp
    | up hd hp => exact .up (h.kindAt_dir.1 hd) hp
    | entry hd hp hk =>
      refine .entry (h.kindAt_dir.1 hd) hp ?_
      by_cases hq : P (here ++ [String.ofList piece])
      · -- nothing leads on from the file
        exfalso
        rw [List.nil_append] at hf
        cases rest with
        | nil =>
          rw [follow_nil] at hf
          exact hplace (Except.ok.inj hf ▸ hq)
        | cons p ps =>
          obtain ⟨_, _, _, hl', -⟩ := follow_cons_ok.1 hf
          have hno : root'.kindAt (here ++ [String.ofList piece]) = some .dir := by
            cases hl' <;> assumption
          rw [h.file _ hq] at hno
          cases hno
      · rwa [h.same _ hq] at hk
    | link hd hp hk ht =>
      have hq : ¬P (here ++ [String.ofList piece]) := by
        intro hq
        rw [h.file _ hq] at hk
        cases hk
      exact .link (h.kindAt_dir.1 hd) hp (by rwa [← h.same _ hq]) ht

theorem follow_grown (h : Node.Grown c root root') {links : Nat} {here place : List String}
    {todo : List (List Char)} (hf : follow root links here todo = .ok place) :
    follow root' links here todo = .ok place :=
  follow_grownAt h.grownAt hf

theorem follow_of_grown (h : Node.Grown c root root') {links : Nat} {here place : List String}
    {todo : List (List Char)} (hplace : place ≠ c)
    (hf : follow root' links here todo = .ok place) : follow root links here todo = .ok place :=
  follow_of_grownAt h.grownAt hplace hf

end Disk

/-! ## Shapes -/

namespace Node

mutual

/-- A tree without the contents of its files, of which names, links and directories stay. -/
def shape : Node → Node
  | .file _ => .file .empty
  | .link target => .link target
  | .dir entries => .dir (shapeEntries entries)

def shapeEntries : List (String × Node) → List (String × Node)
  | [] => []
  | entry :: rest => shapeEntry entry :: shapeEntries rest

def shapeEntry : String × Node → String × Node
  | (name, node) => (name, node.shape)

end

theorem shapeEntries_eq_map (entries : List (String × Node)) :
    shapeEntries entries = entries.map fun e => (e.1, e.2.shape) := by
  induction entries with
  | nil => rfl
  | cons entry rest ih => rw [shapeEntries, ih, List.map_cons, shapeEntry]

theorem get?_shapeEntries (name : String) (entries : List (String × Node)) :
    Entries.get? name (shapeEntries entries) = (Entries.get? name entries).map shape := by
  induction entries with
  | nil => rfl
  | cons entry rest ih =>
    rw [shapeEntries, shapeEntry, Entries.get?, Entries.get?]
    split
    · rfl
    · exact ih

theorem shapeEntries_insert (name : String) (node : Node) (entries : List (String × Node)) :
    shapeEntries (Entries.insert name node entries) =
      Entries.insert name node.shape (shapeEntries entries) := by
  induction entries with
  | nil => rfl
  | cons entry rest ih =>
    rw [shapeEntries, shapeEntry, Entries.insert, Entries.insert]
    split
    · rfl
    · split
      · rfl
      · rw [shapeEntries, ih, shapeEntry]

theorem get?_shape (node : Node) (place : List String) :
    node.shape.get? place = (node.get? place).map shape := by
  induction place generalizing node with
  | nil => simp
  | cons name place ih =>
    cases node with
    | file content => simp [shape, get?]
    | link target => simp [shape, get?]
    | dir entries =>
      rw [shape, get?_dir_cons, get?_dir_cons, get?_shapeEntries]
      cases Entries.get? name entries with
      | none => rfl
      | some child => simp [ih child]

theorem kind_shape (node : Node) : node.shape.kind = node.kind := by
  cases node <;> simp [shape, kind]

theorem kindAt_shape (node : Node) : node.shape.kindAt = node.kindAt := by
  funext place
  rw [kindAt, get?_shape, Option.map_map, kindAt]
  congr 1
  funext n
  exact kind_shape n

/-- **A file that is changed** leaves the `shape` of the tree. -/
theorem shape_put {root : Node} (hw : root.WellFormed) {place : List String} {old : ByteArray}
    (h : root.get? place = some (.file old)) (content : ByteArray) :
    (put (.file content) root place).shape = root.shape := by
  induction place generalizing root with
  | nil =>
    obtain rfl : root = .file old := by simpa using h
    simp [shape]
  | cons name place ih =>
    cases root with
    | file _ => simp [get?] at h
    | link _ => simp [get?] at h
    | dir entries =>
      obtain ⟨child, hc, hf⟩ := Option.bind_eq_some_iff.1 ((get?_dir_cons _ _ _) ▸ h)
      have hchild := ih (hw.inside _ (Entries.mem_of_get? hc)) hf
      have hasc : (shapeEntries entries).Pairwise fun a b => a.1 < b.1 := by
        rw [shapeEntries_eq_map]
        exact List.pairwise_map.2 hw.own.ascending
      have hshape : Entries.get? name (shapeEntries entries) = some child.shape := by
        rw [get?_shapeEntries, hc, Option.map_some]
      rw [put_dir_cons, hc, Option.getD_some, shape, shapeEntries_insert, hchild, shape,
        Entries.insert_get? hasc hshape]

end Node

/-! ## Links to the file -/

/-- No symbolic link leads to the place `c`. -/
def NoLinkTo (root : Node) (c : List String) : Prop :=
  ∀ here name target, root.kindAt (here ++ [name]) = some (.link target) →
    Disk.follow root Disk.maxLinks (Disk.start here target).1 (Disk.start here target).2 ≠ .ok c

theorem NoLinkTo.congr {root root' : Node} {c : List String} (hk : root.kindAt = root'.kindAt)
    (h : NoLinkTo root c) : NoLinkTo root' c := by
  intro here name target hl
  rw [← Disk.follow_congr hk]
  exact h here name target (hk ▸ hl)

/-- No entry is a symbolic link, throughout a tree that has `NoLinkTo` any place. -/
def NoLinks (entries : List (String × Node)) : Prop := ∀ e ∈ entries, e.2.isDir || e.2.isFile

instance : DecidablePred NoLinks := fun entries =>
  inferInstanceAs (Decidable (∀ e ∈ entries, e.2.isDir || e.2.isFile))

/-- Every link that is an entry has one of the `targets`. -/
def LinksAmong (targets : List String) (entries : List (String × Node)) : Prop :=
  ∀ e ∈ entries, e.2.kind = .dir ∨ e.2.kind = .file ∨ ∃ t ∈ targets, e.2.kind = .link t

instance (targets : List String) : DecidablePred (LinksAmong targets) := fun entries =>
  inferInstanceAs (Decidable (∀ e ∈ entries, _))

/-- It is enough to look at the `targets` of all links, if these are absolute. -/
theorem NoLinkTo.of_targets {root : Node} {targets : List String} {c : List String}
    (h : root.Throughout (LinksAmong targets))
    (htargets : ∀ t ∈ targets, t.toList.head? = some '/' ∧
      Disk.follow root Disk.maxLinks [] (Disk.start [] t).2 ≠ .ok c) : NoLinkTo root c := by
  intro here name target hl
  rw [Node.kindAt_eq_link, Node.get?_concat] at hl
  split at hl
  · next entries hdir =>
    have hkind : ∃ t ∈ targets, NodeKind.link target = .link t := by
      simpa [Node.kind] using (h.get? hdir).own _ (Entries.mem_of_get? hl)
    obtain ⟨t, ht, hsame⟩ := hkind
    obtain rfl := NodeKind.link.inj hsame
    obtain ⟨hslash, hne⟩ := htargets target ht
    obtain ⟨cs, hcs⟩ := List.head?_eq_some_iff.1 hslash
    rw [Disk.start_slash hcs] at hne ⊢
    exact hne
  · cases hl

theorem NoLinkTo.of_throughout {root : Node} (h : root.Throughout NoLinks) (c : List String) :
    NoLinkTo root c := by
  have hnone : root.Throughout (LinksAmong []) := by
    refine h.imp fun entries hno e he => ?_
    have hkind := hno e he
    cases hnode : e.2 with
    | dir inside => exact .inl rfl
    | file content => exact .inr (.inl rfl)
    | link target => simp [hnode, Node.isDir, Node.isFile] at hkind
  exact .of_targets hnone (by simp)

namespace Disk

variable {disk disk' : Disk} {here : List String} {name : String}

theorem getLast?_start (here : List String) (path : String) :
    (start here path).2.getLast? = (Path.pieces path.toList).getLast? := by
  by_cases hroot : path.toList.head? = some '/'
  · obtain ⟨cs, hcs⟩ := List.head?_eq_some_iff.1 hroot
    obtain ⟨front, last, hps⟩ := Path.exists_pieces_concat cs
    rw [start_slash hcs, hcs, hps]
    have hall : Path.pieces ('/' :: cs) = ([] :: front) ++ [last] := by
      rw [List.cons_append, ← hps]
      rfl
    rw [hall, List.getLast?_concat, List.getLast?_concat]
  · rw [start_plain hroot]

/-- **The last piece** of a path that leads to a file with `NoLinkTo` it is the name of the file. -/
theorem getLast?_pieces_of_locate (hlinks : NoLinkTo disk.root (here ++ [name]))
    (hfile : disk.root.kindAt (here ++ [name]) = some .file) {path : String}
    (h : disk.locate path = .ok (here ++ [name])) :
    (Path.pieces path.toList).getLast? = some name.toList := by
  obtain ⟨-, -, hf⟩ := locate_eq_ok.1 h
  rw [← getLast?_start disk.workingDir path]
  rcases List.eq_nil_or_concat (start disk.workingDir path).2 with hnil | ⟨front, last, hps⟩
  · exact absurd hnil (start_ne_nil _ _)
  rw [List.concat_eq_append] at hps
  rw [hps] at hf ⊢
  obtain ⟨left, mid, hle, -, hf⟩ := exists_mid_of_follow hf
  obtain ⟨left', next, more, hl, hf⟩ := follow_cons_ok.1 hf
  rw [List.append_nil] at hf
  have hdir : ∀ {q}, disk.root.kindAt q = some .dir → q ≠ here ++ [name] := by
    rintro q hd rfl
    rw [hfile] at hd
    cases hd
  rw [List.getLast?_concat]
  cases hl with
  | idle hd hp =>
    rw [follow_nil] at hf
    exact absurd (Except.ok.inj hf) (hdir hd)
  | up hd hp =>
    rw [follow_nil] at hf
    exact absurd (Except.ok.inj hf) (hdir (Node.kindAt_dropLast hd))
  | entry hd hp hk =>
    rw [follow_nil] at hf
    obtain ⟨-, hlast⟩ := List.append_inj' (Except.ok.inj hf) rfl
    rw [← List.singleton_inj.1 hlast, String.toList_ofList]
  | link hd hp hk ht =>
    exact absurd (follow_mono (Nat.le_trans (Nat.le_succ _) hle) hf) (hlinks _ _ _ hk)

end Disk

/-- At the places of `P` there are files with the name `name`, and no symbolic link leads there. -/
structure Secluded (root : Node) (name : String) (P : List String → Prop) : Prop where
  named : ∀ c, P c → ∃ here, c = here ++ [name]
  file : ∀ c, P c → root.kindAt c = some .file
  unlinked : ∀ c, P c → NoLinkTo root c

theorem NoLinkTo.secluded {root : Node} {here : List String} {name : String}
    (h : NoLinkTo root (here ++ [name])) (hfile : root.kindAt (here ++ [name]) = some .file) :
    Secluded root name (· = here ++ [name]) :=
  ⟨fun _ hc => ⟨here, hc⟩, fun _ hc => hc ▸ hfile, fun _ hc => hc ▸ h⟩

namespace Disk

variable {disk disk' : Disk} {here : List String} {name : String}

/-- A path that leads to a `Secluded` file has its name as the last piece. -/
theorem getLast?_pieces_of_secluded {P : List String → Prop} (h : Secluded disk.root name P)
    {c : List String} (hc : P c) {path : String} (hl : disk.locate path = .ok c) :
    (Path.pieces path.toList).getLast? = some name.toList := by
  obtain ⟨here, rfl⟩ := h.named c hc
  exact getLast?_pieces_of_locate (h.unlinked _ hc) (h.file _ hc) hl

/-! ## Disks that differ in some files -/

/-- The `disk` with a file at `place` that holds `content`. -/
def withFile (disk : Disk) (place : List String) (content : ByteArray) : Disk :=
  { disk with root := (Node.file content).put disk.root place }

/-- The disks `disk` and `disk'` differ at most in what is in the files at the places of `P`. -/
structure AlikeBut (P : List String → Prop) (disk disk' : Disk) : Prop where
  workingDir : disk'.workingDir = disk.workingDir
  shape : disk'.root.shape = disk.root.shape
  same : ∀ q, ¬P q → ∀ content,
    disk'.root.get? q = some (.file content) ↔ disk.root.get? q = some (.file content)

/-- Two disks differ at most in what is in the file at the place `c`. -/
abbrev Alike (c : List String) (disk disk' : Disk) : Prop := AlikeBut (· = c) disk disk'

variable {P : List String → Prop}

theorem AlikeBut.refl (P : List String → Prop) (disk : Disk) : AlikeBut P disk disk :=
  ⟨rfl, rfl, fun _ _ _ => Iff.rfl⟩

theorem alike_withFile (hw : disk.root.WellFormed)
    (hfile : disk.root.kindAt (here ++ [name]) = some .file) (content : ByteArray) :
    Alike (here ++ [name]) disk (disk.withFile (here ++ [name]) content) := by
  obtain ⟨old, hold⟩ := Node.kindAt_eq_file.1 hfile
  have hroom : disk.root.Room here name :=
    ⟨Node.kindAt_above (List.cons_ne_nil name []) hfile, .inr hfile⟩
  refine ⟨rfl, Node.shape_put hw hold content, ?_⟩
  intro q hq content'
  rcases Node.get?_put_file_of_ne hroom content hq with he | ⟨⟨es, hd⟩, es', hd'⟩
  · rw [withFile, he]
  · rw [withFile, hd, hd']
    simp

theorem AlikeBut.kindAt (h : AlikeBut P disk disk') : disk'.root.kindAt = disk.root.kindAt := by
  rw [← Node.kindAt_shape, h.shape, Node.kindAt_shape]

theorem AlikeBut.get? (h : AlikeBut P disk disk') (place : List String) :
    (disk'.root.get? place).map Node.shape = (disk.root.get? place).map Node.shape := by
  rw [← Node.get?_shape, ← Node.get?_shape, h.shape]

theorem AlikeBut.locate (h : AlikeBut P disk disk') (path : String) :
    disk'.locate path = disk.locate path := by
  unfold Disk.locate
  rw [h.workingDir, follow_congr h.kindAt]

theorem AlikeBut.place (h : AlikeBut P disk disk') (path : String) :
    disk'.place path = disk.place path := by
  unfold Disk.place
  simp only [h.locate]

/-- What `entry` reports of a place where nothing stands. -/
theorem entry_of_none {path : String} {place : List String} (hp : disk.place path = .ok place)
    (h : disk.root.get? place = none) :
    disk.entry path =
      if disk.root.kindAt place.dropLast = some .dir then
        if (place.getLast?.getD "").utf8ByteSize > maxNameBytes then .error .nameTooLong
        else .error .notFound
      else .error .notDirectory := by
  cases hd : disk.root.get? place.dropLast with
  | none => simp [entry, hp, h, hd, Node.kindAt]
  | some node => cases node <;> simp [entry, hp, h, hd, Node.kindAt, Node.kind]

theorem AlikeBut.entry (h : AlikeBut P disk disk') (path : String) :
    (disk'.entry path).map Node.shape = (disk.entry path).map Node.shape := by
  have hplace := h.place path
  cases hp : disk.place path with
  | error e => simp [Disk.entry, hplace, hp]
  | ok place =>
    rw [hp] at hplace
    have hshape := h.get? place
    cases hg : disk.root.get? place with
    | none =>
      rw [hg, Option.map_none, Option.map_eq_none_iff] at hshape
      rw [entry_of_none hp hg, entry_of_none hplace hshape, h.kindAt]
    | some node =>
      rw [hg, Option.map_some] at hshape
      obtain ⟨node', hg', hs⟩ := Option.map_eq_some_iff.1 hshape
      simp [Disk.entry, hplace, hp, hg, hg', Except.map, hs]

theorem readBytes_of_file {path : String} {place : List String} {content : ByteArray}
    (hl : disk.locate path = .ok place) (h : disk.root.get? place = some (.file content)) :
    disk.readBytes path = .ok content := by
  simp [readBytes, node, hl, h]

theorem readBytes_of_dir {path : String} {place : List String}
    (hl : disk.locate path = .ok place) (h : disk.root.kindAt place = some .dir) :
    disk.readBytes path = .error .isDirectory := by
  obtain ⟨es, hes⟩ := Node.kindAt_eq_dir.1 h
  simp [readBytes, node, hl, hes]

theorem readBytes_of_error {path : String} {e : FileError} (hl : disk.locate path = .error e) :
    disk.readBytes path = .error e := by
  simp [readBytes, node, hl]

/-- **Elsewhere disks that are `AlikeBut` read the same.** -/
theorem AlikeBut.readBytes (h : AlikeBut P disk disk') {path : String}
    (hp : ∀ c, P c → disk.locate path ≠ .ok c) : disk'.readBytes path = disk.readBytes path := by
  have hloc := h.locate path
  cases hl : disk.locate path with
  | error e => rw [readBytes_of_error hl, readBytes_of_error (hloc.trans hl)]
  | ok place =>
    have hne : ¬P place := fun hc => hp place hc hl
    rcases stands_of_locate hl with hd | hf
    · rw [readBytes_of_dir hl hd, readBytes_of_dir (hloc.trans hl) (h.kindAt ▸ hd)]
    · obtain ⟨content, hc⟩ := Node.kindAt_eq_file.1 hf
      rw [readBytes_of_file hl hc,
        readBytes_of_file (hloc.trans hl) ((h.same place hne content).2 hc)]

theorem AlikeBut.read (h : AlikeBut P disk disk') {path : String}
    (hp : ∀ c, P c → disk.locate path ≠ .ok c) : disk'.read path = disk.read path := by
  unfold Disk.read
  rw [h.readBytes hp]

end Disk

end FlowMigration
