import FlowMigration.Proofs.Walk.Address

/-!
# The places of a walk

A walk from a directory given by a path that addresses it, described by places alone: whether it
comes to a place does not depend on where it starts, except for what it is told to leave out.

* `layersAt`: the layers that count in a directory are those of the directories that lead to it.
* `RuledOut`: their rules leave out what stands at a place.
* `mem_entries_iff`: a walk comes to everything that is not `RuledOut`, nor anything on the way
  there.
-/

namespace FlowMigration.Walk

variable {disk : Disk} {keep : List String → Node → Bool} {e : WalkEntry}

/-! ## Layers -/

/-- The layers of the directory at `place` and of those around it, the nearest first. -/
def layersAt (disk : Disk) (place : List String) : List IgnoreLayer :=
  (IgnoreLayer.ofDirectory disk (Disk.pathOf place) []).1 :: (layersAbove disk place).1

theorem layersAbove_eq (disk : Disk) (place : List String) :
    layersAbove disk place =
      (((List.range place.length).map fun depth => (IgnoreLayer.ofDirectory disk
          (Disk.pathOf (place.take depth)) (place.drop depth)).1).reverse,
        (List.range place.length).flatMap fun depth => (IgnoreLayer.ofDirectory disk
          (Disk.pathOf (place.take depth)) (place.drop depth)).2) := by
  have hfold : ∀ (f : Nat → IgnoreLayer × List IgnoreFault) (depths : List Nat)
      (above : List IgnoreLayer × List IgnoreFault),
      depths.foldl (fun above depth => ((f depth).1 :: above.1, above.2 ++ (f depth).2)) above =
        ((depths.map fun depth => (f depth).1).reverse ++ above.1,
          above.2 ++ depths.flatMap fun depth => (f depth).2) := by
    intro f depths
    induction depths with
    | nil => simp
    | cons depth depths ih => intro above; simp [ih]
  -- what is read from one directory is kept together, or it would be unfolded
  obtain ⟨f, hf⟩ : ∃ f : Nat → IgnoreLayer × List IgnoreFault, ∀ depth, IgnoreLayer.ofDirectory disk
      (Disk.pathOf (place.take depth)) (place.drop depth) = f depth := ⟨_, fun _ => rfl⟩
  simp only [layersAbove, hf]
  refine (hfold f _ _).trans ?_
  rw [List.append_nil, List.nil_append]

/-- **The layers one directory further in**: that of `name` itself, and those at `place`, entered by
`name`. -/
theorem layersAt_concat (disk : Disk) (place : List String) (name : String) :
    layersAt disk (place ++ [name]) =
      (IgnoreLayer.ofDirectory disk (Disk.pathOf (place ++ [name])) []).1 ::
        (layersAt disk place).map (·.enter name) := by
  have hlayer : ∀ dir below, ((IgnoreLayer.ofDirectory disk dir below).1).enter name =
      (IgnoreLayer.ofDirectory disk dir (below ++ [name])).1 := by
    intro dir below
    simp only [IgnoreLayer.ofDirectory, IgnoreLayer.enter]
  rw [layersAt, layersAt, layersAbove_eq, layersAbove_eq]
  simp only [List.length_append, List.length_singleton, List.range_succ, List.map_append,
    List.reverse_append, List.map_cons, List.map_reverse,
    List.map_map, Function.comp_def, hlayer, List.nil_append]
  have hown : (place ++ [name]).take place.length = place ∧
      (place ++ [name]).drop place.length = [name] := by simp
  rw [hown.1, hown.2]
  refine congrArg _ (congrArg _ (congrArg _ (List.map_congr_left fun depth hd => ?_)))
  have hle := Nat.le_of_lt (List.mem_range.1 hd)
  rw [List.take_append_of_le_length hle, List.drop_append_of_le_length hle]

theorem faults_ofDirectory (disk : Disk) (dir : String) (below below' : List String) :
    (IgnoreLayer.ofDirectory disk dir below).2 = (IgnoreLayer.ofDirectory disk dir below').2 := by
  simp only [IgnoreLayer.ofDirectory]

theorem faultless_of_prefix {place inner : List String} (h : place <+: inner)
    (hnone : (layersAbove disk inner).2 = []) : (layersAbove disk place).2 = [] := by
  obtain ⟨rest, rfl⟩ := h
  rw [layersAbove_eq] at hnone ⊢
  rw [List.flatMap_eq_nil_iff] at hnone ⊢
  intro depth hdepth
  have hlt := List.mem_range.1 hdepth
  have houter := hnone depth (List.mem_range.2 (by rw [List.length_append]; omega))
  rw [List.take_append_of_le_length (Nat.le_of_lt hlt)] at houter
  rw [faults_ofDirectory, houter]

/-- Ignore files rule out what stands at `place`. -/
def RuledOut (disk : Disk) (place : List String) : Prop :=
  ∃ here name, place = here ++ [name] ∧ IgnoreLayer.decide (layersAt disk here) name
    (disk.root.kindAt place = some .dir) = .ignored

theorem ruledOut_concat {here : List String} {name : String} :
    RuledOut disk (here ++ [name]) ↔ IgnoreLayer.decide (layersAt disk here) name
      (disk.root.kindAt (here ++ [name]) = some .dir) = .ignored := by
  constructor
  · rintro ⟨here', name', he, h⟩
    obtain ⟨rfl, hn⟩ := List.append_inj' he rfl
    obtain rfl := List.singleton_inj.1 hn
    exact h
  · exact fun h => ⟨here, name, rfl, h⟩

/-- What is `RuledOut` depends on the layers and on what is a directory. -/
theorem ruledOut_congr {disk' : Disk} (hlayers : ∀ dir below, IgnoreLayer.ofDirectory disk' dir below =
      IgnoreLayer.ofDirectory disk dir below)
    (hdir : ∀ q, disk'.root.kindAt q = some .dir ↔ disk.root.kindAt q = some .dir)
    (place : List String) : RuledOut disk' place ↔ RuledOut disk place := by
  simp only [RuledOut, layersAt, hlayers, layersAbove_alike hlayers, hdir]

/-! ## Entries -/

/-- A walk from `base` comes past what `names` lead to. -/
def Passes (disk : Disk) (keep : List String → Node → Bool) (base names : List String) : Prop :=
  ∃ node, disk.root.get? (base ++ names) = some node ∧ keep names node = true ∧
    ¬RuledOut disk (base ++ names)

theorem belowEntry_leaf {layers : List IgnoreLayer} {place names : List String} {name : String}
    {node : Node} (h : node.isDir = false) :
    belowEntry disk keep layers place names (name, node) =
      if IgnoreLayer.decide layers name false = .ignored ∨ keep (names ++ [name]) node = false then []
      else [⟨names ++ [name], node⟩] := by
  cases node with
  | dir inside => cases h
  | file content => rw [belowEntry]; simp
  | link target => rw [belowEntry]; simp

variable {base names : List String}

theorem passes_iff {name : String} {node : Node}
    (hat : disk.root.get? (base ++ (names ++ [name])) = some node) :
    Passes disk keep base (names ++ [name]) ↔
      ¬(IgnoreLayer.decide (layersAt disk (base ++ names)) name node.isDir = .ignored ∨
        keep (names ++ [name]) node = false) := by
  have hkind : decide (disk.root.kindAt (base ++ names ++ [name]) = some .dir) = node.isDir := by
    rw [List.append_assoc, Node.kindAt, hat]
    cases node <;> simp [Node.kind, Node.isDir]
  have hruled : RuledOut disk (base ++ (names ++ [name])) ↔
      IgnoreLayer.decide (layersAt disk (base ++ names)) name node.isDir = .ignored := by
    rw [← List.append_assoc, ruledOut_concat, hkind]
  rw [Passes, hruled, not_or, Bool.not_eq_false]
  constructor
  · rintro ⟨node', hnode, hkeep, hno⟩
    obtain rfl := Option.some.inj (hat.symm.trans hnode)
    exact ⟨hno, hkeep⟩
  · rintro ⟨hno, hkeep⟩
    exact ⟨node, hat, hkeep, hno⟩

/-- What a walk comes to from the entry `name` of a directory. -/
def Comes (disk : Disk) (keep : List String → Node → Bool) (base names : List String)
    (name : String) (e : WalkEntry) : Prop :=
  ∃ rest, e.names = names ++ name :: rest ∧ disk.root.get? (base ++ e.names) = some e.node ∧
    ∀ front, front <+: rest → Passes disk keep base (names ++ name :: front)

/-- It comes past the entry `name` first. -/
theorem Comes.passes {name : String} (h : Comes disk keep base names name e) :
    Passes disk keep base (names ++ [name]) := by
  obtain ⟨rest, -, -, hpass⟩ := h
  exact hpass [] List.nil_prefix

/-- It comes to the entry `name` itself, or on to an entry `next` of the directory that this is. -/
theorem comes_iff {name : String} {node : Node}
    (hat : disk.root.get? (base ++ (names ++ [name])) = some node) :
    Comes disk keep base names name e ↔ Passes disk keep base (names ++ [name]) ∧
      (e = ⟨names ++ [name], node⟩ ∨ ∃ next, (node.get? [next]).isSome ∧
        Comes disk keep base (names ++ [name]) next e) := by
  constructor
  · intro h
    refine ⟨h.passes, ?_⟩
    obtain ⟨rest, hnames, hnode, hpass⟩ := h
    cases rest with
    | nil =>
      rw [hnames, hat] at hnode
      exact .inl (by cases e; cases hnode; rw [← hnames])
    | cons next rest =>
      obtain ⟨child, hchild, -⟩ := hpass [next] ⟨rest, rfl⟩
      have hsplit : base ++ (names ++ [name, next]) = base ++ (names ++ [name]) ++ [next] := by simp
      rw [hsplit, Node.get?_append, hat, Option.bind_some] at hchild
      refine .inr ⟨next, by rw [hchild]; rfl, rest, by simp [hnames], hnode, fun front hfront => ?_⟩
      have hnext := hpass (next :: front) (List.cons_prefix_cons.2 ⟨rfl, hfront⟩)
      rwa [List.append_assoc, List.singleton_append]
  · rintro ⟨hpass, rfl | ⟨next, -, rest, hnames, hnode, hon⟩⟩
    · refine ⟨[], rfl, hat, fun front hfront => ?_⟩
      rw [List.prefix_nil.1 hfront]
      exact hpass
    · refine ⟨next :: rest, by simp [hnames], hnode, fun front hfront => ?_⟩
      cases front with
      | nil => exact hpass
      | cons n front =>
        obtain ⟨rfl, hrest⟩ := List.cons_prefix_cons.1 hfront
        have hnext := hon front hrest
        rwa [List.append_assoc, List.singleton_append] at hnext

theorem mem_belowEntry_leaf {name : String} {node : Node} (h : node.isDir = false)
    (hat : disk.root.get? (base ++ (names ++ [name])) = some node) :
    e ∈ belowEntry disk keep (layersAt disk (base ++ names)) (base ++ names) names (name, node) ↔
      Comes disk keep base names name e := by
  have hnone : ∀ next, (node.get? [next]).isSome = false := fun next => by
    rw [Node.get?_cons_of_not_dir h]
    rfl
  rw [belowEntry_leaf h, comes_iff hat, passes_iff hat, h]
  simp only [hnone, Bool.false_eq_true, false_and, exists_false, or_false]
  split
  · next hout => simp [hout]
  · next hin => simp [hin]

mutual

/-- **A walk `below` a directory** comes to what it `Comes` to from one of the `entries`. -/
theorem mem_below_iff {names : List String} : (entries : List (String × Node)) →
    (∀ entry ∈ entries, entry.2.WellFormed) →
    (∀ entry ∈ entries, disk.root.get? (base ++ (names ++ [entry.1])) = some entry.2) →
    (e ∈ below disk keep (layersAt disk (base ++ names)) (base ++ names) names entries ↔
      ∃ entry ∈ entries, Comes disk keep base names entry.1 e)
  | [], _, _ => by simp [below]
  | entry :: rest, hw, hat => by
    rw [below, List.mem_append,
      mem_belowEntry_iff entry (hw entry List.mem_cons_self) (hat entry List.mem_cons_self),
      mem_below_iff rest (fun x hx => hw x (List.mem_cons_of_mem _ hx))
        fun x hx => hat x (List.mem_cons_of_mem _ hx)]
    simp

theorem mem_belowEntry_iff {names : List String} : (entry : String × Node) → entry.2.WellFormed →
    disk.root.get? (base ++ (names ++ [entry.1])) = some entry.2 →
    (e ∈ belowEntry disk keep (layersAt disk (base ++ names)) (base ++ names) names entry ↔
      Comes disk keep base names entry.1 e)
  | (name, .dir inside), hw, hat => by
    have hin : ∀ entry ∈ inside,
        disk.root.get? (base ++ (names ++ [name] ++ [entry.1])) = some entry.2 := by
      intro entry hmem
      rw [← List.append_assoc, Node.get?_append, hat, Option.bind_some]
      simp [Entries.get?_of_mem hw.own.ascending hmem]
    have hnext : (∃ next, ((Node.dir inside).get? [next]).isSome ∧
        Comes disk keep base (names ++ [name]) next e) ↔
          ∃ entry ∈ inside, Comes disk keep base (names ++ [name]) entry.1 e := by
      constructor
      · rintro ⟨next, hsome, hcomes⟩
        obtain ⟨child, hchild⟩ := Option.isSome_iff_exists.1 hsome
        rw [Node.get?_dir_cons] at hchild
        obtain ⟨entry, hentry, -⟩ := Option.bind_eq_some_iff.1 hchild
        exact ⟨(next, entry), Entries.mem_of_get? hentry, hcomes⟩
      · rintro ⟨entry, hmem, hcomes⟩
        have hentry := Entries.get?_of_mem hw.own.ascending hmem
        exact ⟨entry.1, by simp [hentry], hcomes⟩
    have hinside : e ∈ below disk keep (layersAt disk (base ++ (names ++ [name])))
        (base ++ (names ++ [name])) (names ++ [name]) inside ↔
          ∃ entry ∈ inside, Comes disk keep base (names ++ [name]) entry.1 e :=
      mem_below_iff inside hw.inside hin
    rw [← List.append_assoc, layersAt_concat] at hinside
    rw [belowEntry, comes_iff hat, passes_iff hat, hnext]
    split
    · next hout => simp [hout, Node.isDir]
    · next hgoes =>
      rw [List.mem_cons, hinside]
      exact (and_iff_right hgoes).symm
  | (_, .file _), _, hat => mem_belowEntry_leaf rfl hat
  | (_, .link _), _, hat => mem_belowEntry_leaf rfl hat

end

/-! ## Walks from a path -/

section
variable (hw : disk.root.WellFormed) (htop : disk.root.kindAt [] = some .dir) {start : String}
  (hstart : disk.Addresses start base) {inside : List (String × Node)}
  (hdir : disk.root.get? base = some (.dir inside))
include hw htop hstart hdir

/-- A walk from the directory at `base` fails only where the ignore files of those around it have
faults. -/
theorem entries_of_addresses (keep : List String → Node → Bool) :
    ∃ node, disk.entry start = .ok node ∧ node.isFile = false ∧
      entries disk keep start =
        if (layersAbove disk base).2.isEmpty then
          .ok (⟨[], node⟩ :: below disk keep (layersAt disk base) base [] inside)
        else .error (.ignoreFiles (layersAbove disk base).2) := by
  have hkind : disk.root.kindAt (base ++ []) = some .dir := by
    rw [List.append_nil]
    exact Node.kindAt_eq_dir.2 ⟨inside, hdir⟩
  obtain ⟨node, hentry, hfile⟩ := Disk.exists_entry_of_dir hw hstart.located
    (by rwa [List.append_nil] at hkind)
  have hlayer := hstart.layer_eq hw htop hkind []
  rw [List.append_nil] at hlayer
  refine ⟨node, hentry, hfile, ?_⟩
  rw [entries_of_dir hentry hstart.located hdir, layersAt, ← hlayer]
  rfl

/-- **The entries of a walk** from a directory: the entry at its `start`, and what stands below
where nothing on the way is ruled out or refused. -/
theorem mem_entries_iff {found : List WalkEntry}
    (hfound : entries disk keep start = .ok found) :
    e ∈ found ↔ e.names = [] ∧ disk.entry start = .ok e.node ∨ e.names ≠ [] ∧
      disk.root.get? (base ++ e.names) = some e.node ∧
        ∀ front, front ≠ [] → front <+: e.names → Passes disk keep base front := by
  have hwhole : (Node.dir inside).WellFormed := hw.get? hdir
  have hat : ∀ entry ∈ inside, disk.root.get? (base ++ ([] ++ [entry.1])) = some entry.2 := by
    intro entry hmem
    rw [List.nil_append, Node.get?_append, hdir, Option.bind_some]
    simp [Entries.get?_of_mem hwhole.own.ascending hmem]
  have hbelow : e ∈ below disk keep (layersAt disk (base ++ [])) (base ++ []) [] inside ↔
      ∃ entry ∈ inside, Comes disk keep base [] entry.1 e := mem_below_iff inside hwhole.inside hat
  rw [List.append_nil] at hbelow
  obtain ⟨node, hentry, -, hwalk⟩ := entries_of_addresses hw htop hstart hdir keep
  have hown : e = ⟨[], node⟩ ↔ e.names = [] ∧ disk.entry start = .ok e.node := by
    rw [hentry, Except.ok.injEq]
    cases e with
    | mk names found => rw [WalkEntry.mk.injEq, eq_comm (a := found)]
  rw [hwalk] at hfound
  split at hfound
  · cases hfound
    rw [List.mem_cons, hown, hbelow]
    refine or_congr_right ⟨?_, ?_⟩
    · rintro ⟨entry, -, rest, hnames, hnode, hpass⟩
      rw [List.nil_append] at hnames
      refine ⟨by simp [hnames], hnode, fun front hne hfront => ?_⟩
      obtain ⟨n, more, rfl⟩ := List.exists_cons_of_ne_nil hne
      rw [hnames] at hfront
      obtain ⟨rfl, hmore⟩ := List.cons_prefix_cons.1 hfront
      exact hpass more hmore
    · rintro ⟨hne, hnode, hpass⟩
      obtain ⟨n, rest, hnames⟩ := List.exists_cons_of_ne_nil hne
      obtain ⟨child, hchild, -⟩ := hpass [n] (List.cons_ne_nil _ _) (hnames ▸ ⟨rest, rfl⟩)
      rw [Node.get?_append, hdir, Option.bind_some, Node.get?_dir_cons] at hchild
      obtain ⟨entry, hentry, -⟩ := Option.bind_eq_some_iff.1 hchild
      refine ⟨(n, entry), Entries.mem_of_get? hentry, rest, hnames, hnode, fun front hfront => ?_⟩
      exact hpass _ (List.cons_ne_nil _ _) (hnames ▸ List.cons_prefix_cons.2 ⟨rfl, hfront⟩)
  · cases hfound

/-- **The files of a walk** from the directory at `base`: each of them stands there, and the walk
`Passes` nothing on the way that it refuses. -/
theorem mem_entries_iff_of_isFile {found : List WalkEntry}
    (hfound : entries disk keep start = .ok found) (hfile : e.node.isFile = true) :
    e ∈ found ↔ e.names ≠ [] ∧ disk.root.get? (base ++ e.names) = some e.node ∧
      ∀ front, front ≠ [] → front <+: e.names → Passes disk keep base front := by
  rw [mem_entries_iff hw htop hstart hdir hfound, or_iff_right]
  rintro ⟨-, hentry⟩
  obtain ⟨node, hnode, hno, -⟩ := entries_of_addresses hw htop hstart hdir keep
  obtain rfl : node = e.node := Except.ok.inj (hnode.symm.trans hentry)
  rw [hfile] at hno
  cases hno

end

end FlowMigration.Walk
