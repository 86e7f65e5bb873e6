import FlowMigration.Proofs.Disk.Change

/-!
# Files are written and moved

What writing through links and moving a file or a link do to a tree, and what they leave of two
disks that differ in some files only.

* `Node.bareAt`: what stands at a place, without what is inside. After a change it is known
  everywhere (`bareAt_put`, `bareAt_erase`), so disks that differ in some files still do
  (`AlikeBut.put`, `AlikeBut.erase`).
* `Disk.written`: the place that a path is written to. It follows from the kinds of nodes; a path
  that leads to a directory is written nowhere (`written_of_dir`).
* `Node.Moved`: a file or a link has moved. Where paths lead now, they led before, unless they lead
  through the moved link (`follow_of_moved`).
* `Secluded.put`, `Secluded.moved`: files that no link leads to stay so.
-/

namespace FlowMigration

/-! ## Bare nodes -/

namespace Node

/-- A node without what is inside: a `dir` has no entries left. -/
def bare : Node → Node
  | .dir _ => .dir []
  | node => node

/-- What stands at `place`, as a `bare` node. -/
def bareAt (root : Node) (place : List String) : Option Node := (root.get? place).map bare

variable {root new : Node}

theorem kind_bare (node : Node) : node.bare.kind = node.kind := by cases node <;> rfl

theorem bareAt_eq_file {place : List String} {content : ByteArray} :
    root.bareAt place = some (.file content) ↔ root.get? place = some (.file content) := by
  unfold bareAt
  cases root.get? place with
  | none => simp
  | some n => cases n <;> simp [bare]

theorem kindAt_eq_bareAt (root : Node) (place : List String) :
    root.kindAt place = (root.bareAt place).map kind := by
  rw [kindAt, bareAt, Option.map_map]
  congr 1
  funext node
  exact (kind_bare node).symm

theorem bareAt_nil (root : Node) : root.bareAt [] = some root.bare := by rw [bareAt, get?_nil]; rfl

theorem bareAt_dir_cons (entries : List (String × Node)) (name : String) (rest : List String) :
    (Node.dir entries).bareAt (name :: rest) =
      (Entries.get? name entries).bind (·.bareAt rest) := by
  rw [bareAt, get?_dir_cons, Option.map_bind]
  rfl

/-- The node `new` that was `put` in stands at its place, with all that is inside. -/
theorem bareAt_put_self {here : List String} (hd : root.kindAt here = some .dir) (name : String)
    (rest : List String) :
    (put new root (here ++ [name])).bareAt (here ++ [name] ++ rest) = new.bareAt rest := by
  obtain ⟨es, hes⟩ := kindAt_eq_dir.1 hd
  rw [bareAt, get?_append, get?_put_self hes, Option.bind_some, bareAt]

/-- **Elsewhere there stands what stood there** before the node `new` was `put` in. -/
theorem bareAt_put {here : List String} (hd : root.kindAt here = some .dir) {name : String}
    {place : List String} (hne : ¬here ++ [name] <+: place) :
    (put new root (here ++ [name])).bareAt place = root.bareAt place := by
  by_cases habove : place <+: here ++ [name]
  · -- above the change there are directories before and after
    obtain ⟨rest, happend⟩ := habove
    rcases List.eq_nil_or_concat rest with rfl | ⟨init, last, rfl⟩
    · rw [List.append_nil] at happend
      exact absurd (happend ▸ List.prefix_refl _) hne
    have hlast : (place ++ init) ++ [last] = here ++ [name] := by rw [← happend]; simp
    obtain ⟨rfl, -⟩ := List.append_inj' hlast rfl
    obtain ⟨es, hes⟩ : ∃ es, root.get? place = some (.dir es) := by
      by_cases hinit : init = []
      · exact kindAt_eq_dir.1 (by simpa [hinit] using hd)
      · exact kindAt_eq_dir.1 (kindAt_above hinit hd)
    have hrest : init.concat last ≠ [] := by simp
    obtain ⟨es', hes'⟩ := exists_dir_put hrest hes new
    rw [← happend, bareAt, hes', bareAt, hes]
    rfl
  · rw [bareAt, get?_put_of_ne hne habove, bareAt]

theorem erase_of_not_dir (h : root.isDir = false) (place : List String) : erase root place = root := by
  cases root with
  | dir entries => cases h
  | file content => cases place <;> simp [erase]
  | link target => cases place <;> simp [erase]

theorem bare_erase (root : Node) (place : List String) : (erase root place).bare = root.bare := by
  cases root with
  | file content => rw [erase_of_not_dir rfl]
  | link target => rw [erase_of_not_dir rfl]
  | dir entries =>
    rcases place with _ | ⟨name, _ | ⟨next, rest⟩⟩
    · rw [erase]
    · rw [erase]; rfl
    · rw [erase]; split <;> rfl

/-- **What `erase` took away** is gone, with what was inside. -/
theorem get?_erase_self {place : List String} (hne : place ≠ []) (rest : List String) :
    (erase root place).get? (place ++ rest) = none := by
  induction place generalizing root with
  | nil => exact absurd rfl hne
  | cons name place ih =>
    cases root with
    | file content => rw [erase_of_not_dir rfl]; exact get?_cons_of_not_dir rfl _ _
    | link target => rw [erase_of_not_dir rfl]; exact get?_cons_of_not_dir rfl _ _
    | dir entries =>
      rw [List.cons_append]
      cases place with
      | nil => simp [erase, Entries.get?_erase_self]
      | cons next place =>
        rw [erase]
        cases hc : Entries.get? name entries with
        | none => simp [hc]
        | some child =>
          have hchild : (erase child (next :: place)).get? (next :: place ++ rest) = none :=
            ih (List.cons_ne_nil next place)
          simpa [Entries.get?_insert_self] using hchild

/-- **Elsewhere there stands what stood there** before `erase` took something away. -/
theorem bareAt_erase {place other : List String} (hne : ¬place <+: other) :
    (erase root place).bareAt other = root.bareAt other := by
  induction place generalizing root other with
  | nil => exact absurd List.nil_prefix hne
  | cons name place ih =>
    cases other with
    | nil => rw [bareAt_nil, bareAt_nil, bare_erase]
    | cons m other =>
      cases root with
      | file content => rw [erase_of_not_dir rfl]
      | link target => rw [erase_of_not_dir rfl]
      | dir entries =>
        rw [List.cons_prefix_cons, not_and] at hne
        cases place with
        | nil =>
          have hm : m ≠ name := fun he => hne he.symm List.nil_prefix
          rw [erase, bareAt_dir_cons, bareAt_dir_cons, Entries.get?_erase_of_ne hm]
        | cons next place =>
          rw [erase]
          cases hc : Entries.get? name entries with
          | none => rfl
          | some child =>
            simp only [bareAt_dir_cons]
            by_cases hm : m = name
            · subst hm
              rw [Entries.get?_insert_self, hc, Option.bind_some, Option.bind_some, ih (hne rfl)]
            · rw [Entries.get?_insert_of_ne hm]

theorem Throughout.erase (h : root.WellFormed) (place : List String) :
    (Node.erase root place).WellFormed := by
  induction place generalizing root with
  | nil => cases root <;> simpa [Node.erase] using h
  | cons name place ih =>
    cases root with
    | file content => rwa [erase_of_not_dir rfl]
    | link target => rwa [erase_of_not_dir rfl]
    | dir entries =>
      cases place with
      | nil =>
        rw [Node.erase]
        exact .dir ⟨h.own.ascending.filter _, fun e he => h.own.legal e (List.mem_filter.1 he).1⟩
          fun e he => h.inside e (List.mem_filter.1 he).1
      | cons next place =>
        rw [Node.erase]
        cases hc : Entries.get? name entries with
        | none => exact h
        | some child =>
          have hmem := Entries.mem_of_get? hc
          refine .dir ⟨Entries.ascending_insert h.own.ascending, fun e he => ?_⟩ fun e he => ?_
          · rcases Entries.mem_insert he with rfl | he
            · exact h.own.legal (name, child) hmem
            · exact h.own.legal e he
          · rcases Entries.mem_insert he with rfl | he
            · exact ih (h.inside _ hmem)
            · exact h.inside e he

/-! ## Shapes after a change -/

theorem shape_put_eq (new root : Node) (place : List String) :
    (put new root place).shape = put new.shape root.shape place := by
  induction place generalizing root with
  | nil => simp
  | cons name place ih =>
    cases root with
    | file content => simp [put, shape]
    | link target => simp [put, shape]
    | dir entries =>
      rw [put_dir_cons, shape, shapeEntries_insert, ih, shape, put_dir_cons, get?_shapeEntries]
      cases Entries.get? name entries with
      | none => simp only [Option.map_none, Option.getD_none, shape, shapeEntries]
      | some child => simp only [Option.map_some, Option.getD_some]

theorem shape_erase_eq (root : Node) (place : List String) :
    (erase root place).shape = erase root.shape place := by
  induction place generalizing root with
  | nil => cases root <;> simp [erase, shape]
  | cons name place ih =>
    cases root with
    | file content => rw [erase_of_not_dir rfl, shape, erase_of_not_dir rfl]
    | link target => rw [erase_of_not_dir rfl, shape, erase_of_not_dir rfl]
    | dir entries =>
      cases place with
      | nil =>
        rw [erase, shape, shape, erase, shapeEntries_eq_map, shapeEntries_eq_map, Entries.erase,
          Entries.erase, List.filter_map]
        rfl
      | cons next place =>
        rw [shape, erase, erase, get?_shapeEntries]
        cases Entries.get? name entries with
        | none => rw [Option.map_none, shape]
        | some child => simp only [Option.map_some, shape, shapeEntries_insert, ih]

end Node

/-! ## Disks that differ in some files -/

namespace Disk

variable {disk disk' : Disk} {P : List String → Prop} {here : List String}

/-- What stands at a place outside `P`, `bare`, is the same on disks that are `AlikeBut` there. -/
theorem AlikeBut.bareAt (h : AlikeBut P disk disk') {place : List String} (hp : ¬P place) :
    disk'.root.bareAt place = disk.root.bareAt place := by
  have hshape := h.get? place
  cases hg : disk.root.get? place with
  | none =>
    rw [hg, Option.map_none, Option.map_eq_none_iff] at hshape
    rw [Node.bareAt, Node.bareAt, hg, hshape]
  | some node =>
    rw [hg, Option.map_some] at hshape
    obtain ⟨node', hg', hs⟩ := Option.map_eq_some_iff.1 hshape
    rw [Node.bareAt, Node.bareAt, hg, hg']
    cases node with
    | file content =>
      rw [(h.same place hp content).2 hg] at hg'
      rw [← Option.some.inj hg']
    | link target => cases node' <;> simp_all [Node.shape, Node.bare]
    | dir entries => cases node' <;> simp_all [Node.shape, Node.bare]

theorem AlikeBut.get?_leaf (h : AlikeBut P disk disk') {place : List String} (hp : ¬P place)
    {node : Node} (hnode : disk.root.get? place = some node) (hleaf : node.isDir = false) :
    disk'.root.get? place = some node := by
  have hbare := h.bareAt hp
  rw [Node.bareAt, Node.bareAt, hnode, Option.map_some] at hbare
  obtain ⟨node', hnode', hsame⟩ := Option.map_eq_some_iff.1 hbare
  rw [hnode']
  cases node with
  | dir entries => cases hleaf
  | file content => cases node' <;> simp_all [Node.bare]
  | link target => cases node' <;> simp_all [Node.bare]

/-- Disks with trees of one `shape` and the same at every place but those of `P` are `AlikeBut`
there. -/
theorem alikeBut_of_bareAt (hwd : disk'.workingDir = disk.workingDir)
    (hshape : disk'.root.shape = disk.root.shape)
    (h : ∀ q, ¬P q → disk'.root.bareAt q = disk.root.bareAt q) : AlikeBut P disk disk' :=
  ⟨hwd, hshape, fun q hq content => by rw [← Node.bareAt_eq_file, ← Node.bareAt_eq_file, h q hq]⟩

/-- **The node `new` that is `put` in both disks** makes no difference. -/
theorem AlikeBut.put (h : AlikeBut P disk disk') (hd : disk.root.kindAt here = some .dir)
    (name : String) (new : Node) :
    AlikeBut P { disk with root := new.put disk.root (here ++ [name]) }
      { disk' with root := new.put disk'.root (here ++ [name]) } := by
  refine alikeBut_of_bareAt h.workingDir ?_ fun q hq => ?_
  · rw [Node.shape_put_eq, Node.shape_put_eq, h.shape]
  · have hd' : disk'.root.kindAt here = some .dir := h.kindAt ▸ hd
    by_cases hprefix : here ++ [name] <+: q
    · obtain ⟨rest, rfl⟩ := hprefix
      rw [Node.bareAt_put_self hd', Node.bareAt_put_self hd]
    · rw [Node.bareAt_put hd' hprefix, Node.bareAt_put hd hprefix, h.bareAt hq]

/-- **What `erase` takes away from both disks** makes no difference. -/
theorem AlikeBut.erase (h : AlikeBut P disk disk') {place : List String} (hne : place ≠ []) :
    AlikeBut P { disk with root := disk.root.erase place }
      { disk' with root := disk'.root.erase place } := by
  refine alikeBut_of_bareAt h.workingDir ?_ fun q hq => ?_
  · rw [Node.shape_erase_eq, Node.shape_erase_eq, h.shape]
  · by_cases hprefix : place <+: q
    · obtain ⟨rest, rfl⟩ := hprefix
      rw [Node.bareAt, Node.bareAt, Node.get?_erase_self hne, Node.get?_erase_self hne]
    · rw [Node.bareAt_erase hprefix, Node.bareAt_erase hprefix, h.bareAt hq]

/-! ## Places -/

theorem isName_of_splitLast {path parent name : String} (h : splitLast path = some (parent, name)) :
    Path.IsName name := by
  obtain ⟨front, hps, -⟩ := splitLast_spec h
  have hlast : ¬(name.toList = [] ∨ name.toList = ['.'] ∨ name.toList = ['.', '.']) := by
    intro hdots
    unfold splitLast at h
    simp only [hps, List.getLast?_concat, if_pos hdots] at h
    cases h
  have hmem : name.toList ∈ Path.pieces path.toList := by simp [hps]
  obtain ⟨hempty, hhere, hup⟩ : name.toList ≠ [] ∧ name.toList ≠ ['.'] ∧ name.toList ≠ ['.', '.'] :=
    by simpa only [not_or] using hlast
  refine ⟨?_, ?_, ?_, Path.no_slash_of_mem_pieces hmem⟩
  · rintro rfl; exact hempty rfl
  · rintro rfl; exact hhere rfl
  · rintro rfl; exact hup rfl

theorem no_nul_of_place {path : String} {place : List String} (h : disk.place path = .ok place) :
    '\x00' ∉ path.toList := by
  intro hnul
  simp [Disk.place, hnul] at h

/-- Where a path leads, `there`, and what its `place` is: the same, or a link that leads there. -/
theorem place_of_locate {path : String} {place there : List String}
    (hl : disk.locate path = .ok there) (hp : disk.place path = .ok place) :
    place = there ∨ ∃ target left, disk.root.kindAt place = some (.link target) ∧ target ≠ "" ∧
      disk.root.kindAt place.dropLast = some .dir ∧ left ≤ maxLinks ∧
      follow disk.root left (start place.dropLast target).1 (start place.dropLast target).2 =
        .ok there := by
  rcases hs : splitLast path with _ | ⟨parent, name⟩
  · exact .inl (Except.ok.inj (((place_whole_eq_ok hs).1 hp).2.symm.trans hl))
  obtain ⟨hnul, here, hparent, rfl⟩ := (place_splitLast_eq_ok hs).1 hp
  obtain ⟨front, hstart, hfront, -⟩ := locate_parent disk here hs hnul
  obtain ⟨-, -, hf⟩ := locate_eq_ok.1 hl
  obtain ⟨left, hle, hrest⟩ := follow_append_of_ok (hfront hparent)
  rw [hstart, hrest] at hf
  obtain ⟨left', next, more, hleads, hf⟩ := follow_cons_ok.1 hf
  have hname := isName_of_splitLast hs
  have hplain : ∀ text : String, name ≠ text → name.toList ≠ text.toList := fun _ h he =>
    h (String.toList_injective he)
  rw [List.append_nil] at hf
  cases hleads with
  | idle hd hidle =>
    rcases hidle with hidle | hidle
    · exact absurd hidle (hplain "" hname.ne_empty)
    · exact absurd hidle (hplain "." hname.ne_here)
  | up hd hup => exact absurd hup (hplain ".." hname.ne_up)
  | entry hd _ hk =>
    rw [follow_nil, String.ofList_toList] at hf
    exact .inl (Except.ok.inj hf)
  | link hd _ hk ht =>
    rw [String.ofList_toList] at hk
    rw [List.dropLast_concat]
    exact .inr ⟨_, left', hk, ht, hd, Nat.le_of_succ_le hle, hf⟩

/-- **The `target` of a link**, joined to the path of its directory, leads where the link does. -/
theorem locate_target (hw : disk.root.WellFormed) (hd : disk.root.kindAt here = some .dir)
    {target : String} (hnul : '\x00' ∉ target.toList) (hne : target ≠ "") {left : Nat}
    (hle : left ≤ maxLinks) {there : List String}
    (hf : follow disk.root left (start here target).1 (start here target).2 = .ok there) :
    disk.locate (Path.join (pathOf here) target) = .ok there := by
  by_cases habs : Path.isAbsolute target = true
  · obtain ⟨cs, hcs⟩ : ∃ cs, target.toList = '/' :: cs :=
      List.head?_eq_some_iff.1 (by simpa [Path.isAbsolute] using habs)
    have hjoin : Path.join (pathOf here) target = target := by simp [Path.join, habs]
    rw [start_slash hcs] at hf
    rw [hjoin]
    exact locate_eq_ok.2 ⟨hnul, hne, by rw [start_slash hcs]; exact follow_mono hle hf⟩
  · have hplain : target.toList.head? ≠ some '/' := by simpa [Path.isAbsolute] using habs
    obtain ⟨es, hes⟩ := Node.kindAt_eq_dir.1 hd
    have hlegal := hw.legal hes
    have hnames : ∀ n ∈ here, Path.IsName n := fun n hn => (hlegal n hn).toIsName
    have hpath : (Path.join (pathOf here) target).toList =
        '/' :: (here.flatMap (fun n => n.toList ++ ['/']) ++ target.toList) := by
      have hbase : Path.joinAll "/" here ≠ "" := Path.joinAll_ne_empty (by decide) hnames
      have hroot : Path.closed "/" = ['/'] := by decide
      rw [pathOf_eq_joinAll hnames, Path.toList_join hbase (by simpa using habs),
        Path.closed_joinAll (by decide) hnames, hroot]
      rfl
    have hnul' : '\x00' ∉ (Path.join (pathOf here) target).toList := by
      rw [hpath, List.mem_cons, List.mem_append, List.mem_flatMap]
      rintro (hc | ⟨n, hn, hc⟩ | hc)
      · exact absurd hc (by decide)
      · rcases List.mem_append.1 hc with hc | hc
        · exact (hlegal n hn).no_nul hc
        · exact absurd hc (by decide)
      · exact hnul hc
    refine locate_eq_ok.2 ⟨hnul', fun he => ?_, ?_⟩
    · rw [he] at hpath
      cases hpath
    · rw [start_slash hpath, Path.pieces_flatMap hnames]
      rw [start_plain hplain] at hf
      have hstands : Stands disk.root ([] ++ here) := .inl hd
      rw [follow_names_append hlegal hstands]
      exact follow_mono hle hf

/-! ## Where is written -/

/-- The place of the file that `writeThrough` writes to, through at most so many links. -/
def written (disk : Disk) : Nat → String → Except FileError (List String)
  | links, path =>
    match disk.place path with
    | .error e => .error e
    | .ok here =>
      match disk.root.kindAt here with
      | some .file => .ok here
      | some .dir => .error .isDirectory
      | some (.link target) =>
        match links with
        | 0 => .error .tooManyLinks
        | links + 1 =>
          if target.isEmpty then .error .notFound
          else disk.written links (Path.join (pathOf here.dropLast) target)
      | none =>
        if disk.root.kindAt here.dropLast = some .dir then
          if (here.getLast?.getD "").utf8ByteSize > maxNameBytes then .error .nameTooLong
          else .ok here
        else .error .notDirectory

/-- **Writing** puts the `content` at the place that `written` finds. -/
theorem writeThrough_eq (disk : Disk) (content : ByteArray) (links : Nat) (path : String) :
    disk.writeThrough content links path =
      (disk.written links path).map (disk.withFile · content) := by
  induction links using Nat.strongRecOn generalizing path with
  | _ links ih =>
    rw [writeThrough.eq_def, written.eq_def]
    dsimp only
    cases disk.place path with
    | error e => rfl
    | ok here =>
      dsimp only
      cases hg : disk.root.get? here with
      | none =>
        have hk : disk.root.kindAt here = none := by rw [Node.kindAt, hg, Option.map_none]
        simp only [hk]
        by_cases hd : disk.root.kindAt here.dropLast = some .dir
        · obtain ⟨es, hes⟩ := Node.kindAt_eq_dir.1 hd
          rw [if_pos hd, hes]
          dsimp only
          split <;> rfl
        · rw [if_neg hd]
          split
          · next es hes => exact absurd (Node.kindAt_eq_dir.2 ⟨es, hes⟩) hd
          · rfl
      | some node =>
        cases node with
        | file old => simp only [Node.kindAt_eq_file.2 ⟨old, hg⟩, Except.map, withFile]
        | dir entries => simp only [Node.kindAt_eq_dir.2 ⟨entries, hg⟩, Except.map]
        | link target =>
          simp only [Node.kindAt_eq_link.2 hg]
          cases links with
          | zero => rfl
          | succ left =>
            dsimp only
            split
            · rfl
            · exact ih left (Nat.lt_succ_self _) _

theorem AlikeBut.written (h : AlikeBut P disk disk') (links : Nat) (path : String) :
    disk'.written links path = disk.written links path := by
  induction links generalizing path with
  | zero => rw [Disk.written, Disk.written, h.place, h.kindAt]
  | succ links ih =>
    rw [Disk.written, Disk.written, h.place, h.kindAt]
    simp only [ih]

/-- What is `written` to: a file, a new file, or what a link leads on to. -/
theorem written_eq_ok {links : Nat} {path : String} {c : List String}
    (h : disk.written links path = .ok c) :
    ∃ here, disk.place path = .ok here ∧
      ((disk.root.kindAt here = some .file ∧ c = here) ∨
        (disk.root.kindAt here = none ∧ disk.root.kindAt here.dropLast = some .dir ∧
          (here.getLast?.getD "").utf8ByteSize ≤ maxNameBytes ∧ c = here) ∨
        ∃ target left, left < links ∧ disk.root.kindAt here = some (.link target) ∧ target ≠ "" ∧
          disk.written left (Path.join (pathOf here.dropLast) target) = .ok c) := by
  rw [Disk.written.eq_def] at h
  cases hp : disk.place path with
  | error e => simp [hp] at h
  | ok here =>
    refine ⟨here, rfl, ?_⟩
    simp only [hp] at h
    split at h
    · next hk => exact .inl ⟨hk, (Except.ok.inj h).symm⟩
    · cases h
    · next target hk =>
      cases links with
      | zero => cases h
      | succ left =>
        dsimp only at h
        split at h
        · cases h
        · next ht => exact .inr (.inr ⟨target, left, Nat.lt_succ_self _, hk, by simpa using ht, h⟩)
    · next hk =>
      split at h
      · next hd =>
        split at h
        · cases h
        · next hshort => exact .inr (.inl ⟨hk, hd, Nat.not_lt.1 hshort, (Except.ok.inj h).symm⟩)
      · cases h

/-- **A file is `written`** in a directory, under a legal name, where there is `Room` for it. -/
theorem written_spec (hw : disk.root.WellFormed) (htop : disk.root.kindAt [] = some .dir)
    {links : Nat} {path : String} {c : List String} (h : disk.written links path = .ok c) :
    ∃ here name, c = here ++ [name] ∧ disk.root.Room here name ∧ LegalName name := by
  induction links using Nat.strongRecOn generalizing path with
  | _ links ih =>
    obtain ⟨here, hp, ⟨hk, rfl⟩ | ⟨hk, hd, hshort, rfl⟩ | ⟨target, left, hlt, -, -, h⟩⟩ :=
      written_eq_ok h
    · -- a file that is there
      rcases List.eq_nil_or_concat c with rfl | ⟨here, name, rfl⟩
      · rw [htop] at hk
        cases hk
      rw [List.concat_eq_append] at hk ⊢
      obtain ⟨content, hc⟩ := Node.kindAt_eq_file.1 hk
      exact ⟨here, name, rfl, ⟨Node.kindAt_above (List.cons_ne_nil name []) hk, .inr hk⟩,
        hw.legal hc name (by simp)⟩
    · -- a file that is made
      rcases hs : splitLast path with _ | ⟨parent, name⟩
      · rcases stands_of_locate ((place_whole_eq_ok hs).1 hp).2 with hstands | hstands <;>
          rw [hk] at hstands <;> cases hstands
      obtain ⟨hnul, here, -, rfl⟩ := (place_splitLast_eq_ok hs).1 hp
      rw [List.dropLast_concat] at hd
      have hmem : name.toList ∈ Path.pieces path.toList := by
        obtain ⟨front, hps, -⟩ := splitLast_spec hs
        simp [hps]
      exact ⟨here, name, rfl, ⟨hd, .inl hk⟩, isName_of_splitLast hs,
        fun hc => hnul (Path.mem_of_mem_pieces hmem hc), by simpa using hshort⟩
    · exact ih left hlt h

theorem no_nul_of_written {links : Nat} {base target : String} {c : List String}
    (h : disk.written links (Path.join base target) = .ok c) : '\x00' ∉ target.toList := by
  obtain ⟨_, hp, -⟩ := written_eq_ok h
  refine fun hnul => no_nul_of_place hp ?_
  unfold Path.join
  split
  · exact hnul
  · split <;> simp [hnul]

/-- **A path that leads to a directory** is `written` nowhere. -/
theorem written_ne_ok_of_dir (hw : disk.root.WellFormed) {path : String} {there : List String}
    (hl : disk.locate path = .ok there) (hd : disk.root.kindAt there = some .dir) (links : Nat)
    (c : List String) : disk.written links path ≠ .ok c := by
  induction links using Nat.strongRecOn generalizing path with
  | _ links ih =>
    intro h
    obtain ⟨here, hp, hcases⟩ := written_eq_ok h
    rcases place_of_locate hl hp with rfl | ⟨target, left, hk, ht, hhome, hle, hf⟩
    · rcases hcases with ⟨hk, -⟩ | ⟨hk, -⟩ | ⟨_, _, _, hk, -⟩ <;> rw [hd] at hk <;> cases hk
    · rcases hcases with ⟨hk', -⟩ | ⟨hk', -⟩ | ⟨target', left', hlt, hk', -, h⟩
      · rw [hk] at hk'; cases hk'
      · rw [hk] at hk'; cases hk'
      · rw [hk] at hk'
        cases hk'
        exact ih left' hlt (locate_target hw hhome (no_nul_of_written h) ht hle hf) h

/-- **What was `written` through a link** is not where the link leads to a directory. -/
theorem not_dir_of_written (hw : disk.root.WellFormed) {root' : Node} {c : List String} {name : String}
    (hgrown : Node.Grown c disk.root root') {target : String}
    (hk : disk.root.kindAt (here ++ [name]) = some (.link target)) (hne : target ≠ "") {left : Nat}
    (hwritten : disk.written left (Path.join (pathOf here) target) = .ok c) {place : List String}
    (hf : follow root' maxLinks (start here target).1 (start here target).2 = .ok place) :
    root'.kindAt place ≠ some .dir := by
  intro hd
  have hplace : place ≠ c := by
    rintro rfl
    cases hgrown.file.symm.trans hd
  have hlocate := locate_target hw (Node.kindAt_above (List.cons_ne_nil _ []) hk)
    (no_nul_of_written hwritten) hne (Nat.le_refl _) (follow_of_grown hgrown hplace hf)
  exact written_ne_ok_of_dir hw hlocate ((hgrown.same _ hplace).symm.trans hd) left _ hwritten

end Disk

/-! ## Files and links that moved -/

namespace Node

/-- A file or a link has moved from the place `t` to the place `n`, where no directory stood. -/
structure Moved (t n : List String) (root root' : Node) : Prop where
  leaf : root.kindAt t ≠ none ∧ root.kindAt t ≠ some .dir
  gone : root'.kindAt t = none
  there : root'.kindAt n = root.kindAt t
  free : root.kindAt n ≠ some .dir
  same : ∀ q, q ≠ t → q ≠ n → root'.kindAt q = root.kindAt q

variable {root root' : Node} {t n : List String}

/-- **A `node` that is no directory moves** within a directory, from `old` to `new`. -/
theorem moved_put {here : List String} {old new : String} (hne : old ≠ new) {node : Node}
    (hnode : root.get? (here ++ [old]) = some node) (hleaf : node.isDir = false)
    (hfree : root.kindAt (here ++ [new]) ≠ some .dir) :
    Moved (here ++ [old]) (here ++ [new]) root
      (put node (erase root (here ++ [old])) (here ++ [new])) := by
  have hold : root.kindAt (here ++ [old]) = some node.kind := by rw [kindAt, hnode, Option.map_some]
  have hkind : node.kind ≠ .dir := by cases node <;> simp_all [kind, isDir]
  have hhome := kindAt_above (List.cons_ne_nil old []) hold
  have hapart : ∀ {a b : String}, a ≠ b → ¬here ++ [a] <+: here ++ [b] := by
    intro a b hab h
    have he := h.eq_of_length (by simp)
    exact hab (List.singleton_inj.1 (List.append_inj' he rfl).2)
  have hhome' : (erase root (here ++ [old])).kindAt here = some .dir := by
    have hno : ¬here ++ [old] <+: here := fun h => by
      have hlen := h.length_le
      rw [List.length_append, List.length_singleton] at hlen
      omega
    rw [kindAt_eq_bareAt, bareAt_erase hno, ← kindAt_eq_bareAt, hhome]
  -- nothing stands below either place
  have hbelow : ∀ {place rest : List String}, root.kindAt place ≠ some .dir → rest ≠ [] →
      root.kindAt (place ++ rest) = none := by
    intro place rest hno hrest
    cases hk : root.kindAt (place ++ rest) with
    | none => rfl
    | some k => exact absurd (kindAt_above hrest hk) hno
  refine ⟨by simp [hold, hkind], ?_, ?_, hfree, fun q hq hq' => ?_⟩
  · have hold' : here ++ [old] ≠ [] := by simp
    have hgone : (erase root (here ++ [old])).get? (here ++ [old] ++ []) = none :=
      get?_erase_self hold' []
    rw [List.append_nil] at hgone
    rw [kindAt_eq_bareAt, bareAt_put hhome' (hapart hne.symm), bareAt, hgone]
    rfl
  · have hself : (put node (erase root (here ++ [old])) (here ++ [new])).bareAt
        (here ++ [new] ++ []) = node.bareAt [] := bareAt_put_self hhome' new []
    rw [List.append_nil, bareAt_nil] at hself
    rw [kindAt_eq_bareAt, hself, Option.map_some, kind_bare, hold]
  · by_cases hn : here ++ [new] <+: q
    · obtain ⟨rest, rfl⟩ := hn
      have hrest : rest ≠ [] := by
        rintro rfl
        exact hq' (List.append_nil _)
      obtain ⟨m, more, rfl⟩ := List.exists_cons_of_ne_nil hrest
      rw [kindAt_eq_bareAt, bareAt_put_self hhome', bareAt, get?_cons_of_not_dir hleaf,
        hbelow hfree hrest]
      rfl
    · rw [kindAt_eq_bareAt, bareAt_put hhome' hn]
      by_cases ht : here ++ [old] <+: q
      · obtain ⟨rest, rfl⟩ := ht
        have hrest : rest ≠ [] := by
          rintro rfl
          exact hq (List.append_nil _)
        rw [bareAt, get?_erase_self (by simp), hbelow (by simp [hold, hkind]) hrest]
        rfl
      · rw [bareAt_erase ht, ← kindAt_eq_bareAt]

theorem Moved.kindAt_dir (h : Moved t n root root') {q : List String}
    (hd : root'.kindAt q = some .dir) : root.kindAt q = some .dir := by
  have ht : q ≠ t := by
    rintro rfl
    rw [h.gone] at hd
    cases hd
  have hn : q ≠ n := by
    rintro rfl
    rw [h.there] at hd
    exact h.leaf.2 hd
  rw [← h.same q ht hn, hd]

end Node

namespace Disk

open Node (Moved)

variable {root root' : Node} {t n : List String}

/-- **Paths lead where they led before** a node `Moved`, unless they lead through the link that
moved. -/
theorem follow_of_moved (h : Moved t n root root') {links : Nat} {here place : List String}
    {todo : List (List Char)} (hplace : place ≠ n) (hf : follow root' links here todo = .ok place) :
    follow root links here todo = .ok place ∨
      ∃ target left rest, left < links ∧ root.kindAt t = some (.link target) ∧
        follow root' left (start n.dropLast target).1 ((start n.dropLast target).2 ++ rest) =
          .ok place := by
  induction links, here, todo using follow_induction root'.kindAt with
  | nil links here =>
    rw [follow_nil] at hf
    exact .inl (by rw [follow_nil, hf])
  | cons links here piece rest ih =>
    obtain ⟨left, next, more, hl, hf⟩ := follow_cons_ok.1 hf
    have hle : left ≤ links := by rcases step_measure (step_eq_ok.2 hl) with h | ⟨h, -⟩ <;> omega
    -- a step that was there before
    have hgo : Leads root.kindAt here piece links left next more →
        follow root links here (piece :: rest) = .ok place ∨
          ∃ target left rest, left < links ∧ root.kindAt t = some (.link target) ∧
            follow root' left (start n.dropLast target).1
              ((start n.dropLast target).2 ++ rest) = .ok place := by
      intro hl'
      rcases ih left next more (step_eq_ok.2 hl) hf with hf' | ⟨target, left', rest', hlt, hk, hf'⟩
      · exact .inl (follow_cons_ok.2 ⟨left, next, more, hl', hf'⟩)
      · exact .inr ⟨target, left', rest', Nat.lt_of_lt_of_le hlt hle, hk, hf'⟩
    cases hl with
    | idle hd hp => exact hgo (.idle (h.kindAt_dir hd) hp)
    | up hd hp => exact hgo (.up (h.kindAt_dir hd) hp)
    | entry hd hp hk =>
      have ht : here ++ [String.ofList piece] ≠ t := by
        intro ht
        rw [ht, h.gone] at hk
        rcases hk with hk | hk <;> cases hk
      have hn : here ++ [String.ofList piece] ≠ n := by
        intro hn
        rw [hn] at hk
        rw [List.nil_append, hn] at hf
        -- the place of the moved node is no directory
        have hno : root'.kindAt n ≠ some .dir := h.there ▸ h.leaf.2
        cases rest with
        | nil =>
          rw [follow_nil] at hf
          exact hplace (Except.ok.inj hf).symm
        | cons p ps =>
          obtain ⟨_, _, _, hl', -⟩ := follow_cons_ok.1 hf
          cases hl' <;> exact hno (by assumption)
      exact hgo (.entry (h.kindAt_dir hd) hp (by rwa [h.same _ ht hn] at hk))
    | @link left target hd hp hk ht =>
      by_cases hn : here ++ [String.ofList piece] = n
      · refine .inr ⟨target, left, rest, Nat.lt_succ_self _, ?_, ?_⟩
        · rw [← h.there, ← hn, hk]
        · rw [← hn, List.dropLast_concat]
          exact hf
      · have hne : here ++ [String.ofList piece] ≠ t := by
          intro he
          rw [he, h.gone] at hk
          cases hk
        exact hgo (.link (h.kindAt_dir hd) hp (by rwa [h.same _ hne hn] at hk) ht)

/-- The `target` of the link that moved leads where it led before. -/
theorem follow_target_of_moved (h : Moved t n root root') {target : String}
    (hk : root.kindAt t = some (.link target)) {links : Nat} {place : List String}
    (hf : follow root' links (start n.dropLast target).1 (start n.dropLast target).2 = .ok place) :
    follow root links (start n.dropLast target).1 (start n.dropLast target).2 = .ok place := by
  -- a target that leads through its own link leads nowhere: the inner way is shorter
  induction links using Nat.strongRecOn generalizing place with
  | _ links ih =>
    have hstands : Stands root' place := by
      cases hs : (start n.dropLast target).2 with
      | nil => exact absurd hs (start_ne_nil _ _)
      | cons piece rest => exact stands_of_follow (hs ▸ hf)
    have hplace : place ≠ n := by
      rintro rfl
      unfold Stands at hstands
      rw [h.there, hk] at hstands
      rcases hstands with hs | hs <;> cases hs
    rcases follow_of_moved h hplace hf with hf' | ⟨target', left, rest, hlt, hk', hf'⟩
    · exact hf'
    · obtain rfl : target = target' := by
        rw [hk] at hk'
        exact NodeKind.link.inj (Option.some.inj hk')
      obtain ⟨_, mid, -, hmid, -⟩ := exists_mid_of_follow hf'
      have hsame := follow_mono (Nat.le_of_lt hlt) hmid
      rw [hf] at hsame
      rw [← Except.ok.inj hsame] at hmid
      exact follow_mono (Nat.le_of_lt hlt) (ih left hlt hmid)

end Disk

/-! ## Secluded files -/

section
variable {root root' : Node} {name : String} {P : List String → Prop}

open Disk (follow start maxLinks)

/-- **`Secluded` files stay secluded** when a file is `put` where there is `Room` for it. -/
theorem Secluded.put (h : Secluded root name P) {here : List String} {own : String}
    (hroom : root.Room here own) (content : ByteArray) :
    Secluded (Node.put (.file content) root (here ++ [own])) name P := by
  have hgrown := Node.grown_put hroom content
  refine ⟨h.named, fun c hc => hgrown.kindAt (h.file c hc), fun c hc => ?_⟩
  intro there link target hl hf
  have hlink : root.kindAt (there ++ [link]) = some (.link target) := by
    rw [← hgrown.same, hl]
    intro he
    rw [he, hgrown.file] at hl
    cases hl
  by_cases hown : c = here ++ [own]
  · -- the file was there, and nothing has changed its kind
    have hsame : (Node.put (.file content) root (here ++ [own])).kindAt = root.kindAt := by
      funext q
      by_cases hq : q = here ++ [own]
      · rw [hq, hgrown.file, ← hown, h.file c hc]
      · exact hgrown.same q hq
    rw [Disk.follow_congr hsame] at hf
    exact h.unlinked c hc there link target hlink hf
  · exact h.unlinked c hc there link target hlink (Disk.follow_of_grown hgrown hown hf)

/-- **`Secluded` files stay secluded** when another node moves, if it is no link to a directory. -/
theorem Secluded.moved (h : Secluded root name P) {here : List String} {old new : String}
    (hmoved : Node.Moved (here ++ [old]) (here ++ [new]) root root') (hold : old ≠ name)
    (hnew : new ≠ name)
    (htarget : ∀ target place, root.kindAt (here ++ [old]) = some (.link target) →
      follow root maxLinks (start here target).1 (start here target).2 = .ok place →
      root.kindAt place ≠ some .dir) : Secluded root' name P := by
  have hother : ∀ {own : String}, own ≠ name → ∀ c, P c → c ≠ here ++ [own] := by
    rintro own hown c hc he
    obtain ⟨there, rfl⟩ := h.named c hc
    exact hown (List.singleton_inj.1 (List.append_inj' he rfl).2).symm
  have hfile : ∀ c, P c → root'.kindAt c = some .file := fun c hc => by
    rw [hmoved.same c (hother hold c hc) (hother hnew c hc), h.file c hc]
  have hdrop : (here ++ [new]).dropLast = here := List.dropLast_concat
  refine ⟨h.named, hfile, fun c hc => ?_⟩
  intro there link target hl hf
  by_cases hn : there ++ [link] = here ++ [new]
  · -- the link that moved led there before
    obtain ⟨rfl, -⟩ := List.append_inj' hn rfl
    rw [hn, hmoved.there] at hl
    have hf' := Disk.follow_target_of_moved hmoved hl (by rwa [hdrop])
    rw [hdrop] at hf'
    exact h.unlinked c hc there old target hl hf'
  · have ht : there ++ [link] ≠ here ++ [old] := by
      intro he
      rw [he, hmoved.gone] at hl
      cases hl
    rw [hmoved.same _ ht hn] at hl
    rcases Disk.follow_of_moved hmoved (hother hnew c hc) hf with
      hf' | ⟨target', left, rest, hlt, hk, hf'⟩
    · exact h.unlinked c hc there link target hl hf'
    · -- or the path leads through the link that moved, and ends there
      obtain ⟨left', mid, hle, hmid, hrest⟩ := Disk.exists_mid_of_follow hf'
      have hmid' := Disk.follow_mono (Nat.le_of_lt hlt) (Disk.follow_target_of_moved hmoved hk hmid)
      rw [hdrop] at hmid'
      have hno : root'.kindAt mid ≠ some .dir := fun hd =>
        htarget target' mid hk hmid' (hmoved.kindAt_dir hd)
      cases rest with
      | nil =>
        rw [Disk.follow_nil] at hrest
        rw [Except.ok.inj hrest] at hmid'
        exact h.unlinked c hc here old target' hk hmid'
      | cons piece rest =>
        obtain ⟨_, _, _, hl', -⟩ := Disk.follow_cons_ok.1 hrest
        cases hl' <;> exact hno (by assumption)

end

end FlowMigration
