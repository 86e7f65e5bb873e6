import FlowMigration.Proofs.Json.Members
import FlowMigration.Registry
import Mathlib.Data.List.Forall2
import Mathlib.Data.List.Induction

/-!
# The owners of names

* `Registry.get?_build`: the first manifest that declares a name owns it.
* `Registry.isEmpty_build`: no name has an owner if no manifest declares one.
* `Registry.mem_conflicts_build`: a conflict is a manifest that declares a name which an earlier one
  owns.
* `ManifestRecord.repeated`, `Registry.forall₂_conflicts_build`: the conflicts are these manifests,
  one after the other.
* `Registry.size_build`: every manifest with a name is an owner or a conflict.
* `Registry.first_declaration_owns`: all of this about one registry.
-/

namespace FlowMigration

/-! ## What a record says -/

/-- **A manifest is read** from the text of `file`, which has to be UTF-8, by `parse`. -/
theorem Manifest.ofFile_eq_ok {disk : Disk} {file : String} {m : Manifest} :
    ofFile disk file = .ok m ↔ ∃ content text, disk.readBytes file = .ok content ∧
      String.fromUTF8? content = some text ∧ parse text = .ok m := by
  unfold ofFile Disk.read
  cases disk.readBytes file with
  | error error => simp
  | ok content =>
    cases htext : String.fromUTF8? content with
    | none => simp [htext]
    | some text => cases hparse : parse text <;> simp [htext, hparse]

theorem ManifestRecord.hasErrors_iff {r : ManifestRecord} :
    r.hasErrors = true ↔ ∀ m, r.manifest ≠ .ok m := by
  unfold hasErrors data?
  cases r.manifest <;> simp [Except.toOption]

/-- The manifest of `r` could be read and declares `name`. -/
def ManifestRecord.Declares (r : ManifestRecord) (name : String) : Prop :=
  ∃ manifest, r.manifest = .ok manifest ∧ manifest.name = some name

theorem ManifestRecord.declares_iff {r : ManifestRecord} {name : String} (hne : name ≠ "") :
    r.Declares name ↔ r.name? = some name := by
  unfold Declares name? data?
  cases r.manifest with
  | error message => simp [Except.toOption]
  | ok manifest =>
    simp only [Except.ok.injEq, exists_eq_left', Except.toOption, Option.bind_some,
      Option.filter_eq_some_iff, decide_eq_true_eq]
    exact (and_iff_left hne).symm

/-- The manifest `owner` is the first one of a list to declare a name. -/
def ManifestRecord.FirstToDeclare (records : List ManifestRecord) (name : String)
    (owner : ManifestRecord) : Prop :=
  ∃ before after, records = before ++ owner :: after ∧ owner.Declares name ∧
    ∀ r ∈ before, ¬r.Declares name

theorem ManifestRecord.exists_firstToDeclare {records : List ManifestRecord} {name : String}
    (h : ∃ r ∈ records, r.Declares name) : ∃ owner, FirstToDeclare records name owner := by
  induction records with
  | nil => simp at h
  | cons r rest ih =>
    by_cases hr : r.Declares name
    · exact ⟨r, [], rest, rfl, hr, by simp⟩
    · obtain ⟨r', hmem, hr'⟩ := h
      have hrest : r' ∈ rest := (List.mem_cons.1 hmem).resolve_left fun he => hr (he ▸ hr')
      obtain ⟨owner, before, after, rfl, howner, hbefore⟩ := ih ⟨r', hrest, hr'⟩
      exact ⟨owner, r :: before, after, rfl, howner, List.forall_mem_cons.2 ⟨hr, hbefore⟩⟩

theorem ManifestRecord.FirstToDeclare.mem {records : List ManifestRecord} {name : String}
    {owner : ManifestRecord} (h : FirstToDeclare records name owner) : owner ∈ records := by
  obtain ⟨before, after, rfl, -⟩ := h
  simp

/-- The first of more manifests to declare `name` is the first of fewer. -/
theorem ManifestRecord.FirstToDeclare.append {records : List ManifestRecord} {name : String}
    {owner : ManifestRecord} (h : FirstToDeclare records name owner) (more : List ManifestRecord) :
    FirstToDeclare (records ++ more) name owner := by
  obtain ⟨before, after, rfl, howns, hbefore⟩ := h
  exact ⟨before, after ++ more, by simp, howns, hbefore⟩

theorem ManifestRecord.name?_ne_empty (r : ManifestRecord) : r.name? ≠ some "" := by
  intro h
  simpa using (Option.filter_eq_some_iff.1 h).2

/-- The manifest declares a name that one of `before` declares. -/
def ManifestRecord.isRepeated (before : List ManifestRecord) (r : ManifestRecord) : Bool :=
  r.name?.isSome && before.any fun earlier => earlier.name? = r.name?

/-- The manifests of `records` that declare a name which one in front of them declares
(`isRepeated`), in their order. -/
def ManifestRecord.repeated (records : List ManifestRecord) : List ManifestRecord :=
  (records.zipIdx.filter fun e => isRepeated (records.take e.2) e.1).map (·.1)

theorem ManifestRecord.repeated_concat (records : List ManifestRecord) (r : ManifestRecord) :
    repeated (records ++ [r]) =
      repeated records ++ (if isRepeated records r then [r] else []) := by
  unfold repeated
  rw [List.zipIdx_append, List.filter_append, List.map_append]
  congr 1
  · -- the manifests in front are judged by what is in front of them
    refine congrArg _ (List.filter_congr fun e he => ?_)
    have hlt : e.2 < records.length := List.snd_lt_of_mem_zipIdx he
    rw [List.take_append_of_le_length (Nat.le_of_lt hlt)]
  · simp only [List.zipIdx_singleton, List.filter_singleton, Nat.zero_add, List.take_left]
    cases isRepeated records r <;> rfl

namespace Registry

/-- The manifest of `record` that is entered owns its name unless another one does. -/
theorem get?_add (registry : Registry) (record : ManifestRecord) (name : String) :
    (registry.add record).get? name =
      (registry.get? name).or (if record.name? = some name then some record else none) := by
  unfold add
  cases hname : record.name? with
  | none => simp
  | some own =>
    dsimp only
    cases howner : registry.get? own with
    | some owner =>
      show registry.get? name = _
      by_cases hsame : own = name
      · rw [← hsame, howner]
        rfl
      · simp [hsame]
    | none =>
      show (registry.owners.insert own record).get? name = (registry.get? name).or _
      rw [Dict.get?_insert]
      by_cases hsame : own = name
      · rw [← hsame, howner]
        simp
      · simp [hsame, get?]

theorem get?_foldl_add (registry : Registry) (records : List ManifestRecord) (name : String) :
    (records.foldl add registry).get? name =
      (registry.get? name).or (records.find? (·.name? = some name)) := by
  induction records generalizing registry with
  | nil => simp
  | cons record rest ih =>
    rw [List.foldl_cons, ih, get?_add, Option.or_assoc, List.find?_cons]
    by_cases hname : record.name? = some name
    · simp [hname]
    · simp [hname]

/-- **The owner of `name`** is the first manifest that declares it. -/
theorem get?_build (records : List ManifestRecord) (name : String) :
    (build records).get? name = records.find? (·.name? = some name) :=
  get?_foldl_add {} records name

theorem get?_build_eq_some {records : List ManifestRecord} {name : String} (hne : name ≠ "")
    {owner : ManifestRecord} :
    (build records).get? name = some owner ↔
      ManifestRecord.FirstToDeclare records name owner := by
  rw [get?_build, List.find?_eq_some_iff_append]
  unfold ManifestRecord.FirstToDeclare
  simp only [ManifestRecord.declares_iff hne, decide_eq_true_eq, Bool.not_eq_true',
    decide_eq_false_iff_not]
  constructor
  · intro ⟨hown, before, after, hsplit, hbefore⟩
    exact ⟨before, after, hsplit, hown, hbefore⟩
  · intro ⟨before, after, hsplit, hown, hbefore⟩
    exact ⟨hown, before, after, hsplit, hbefore⟩

theorem get?_build_empty (records : List ManifestRecord) : (build records).get? "" = none := by
  rw [get?_build, List.find?_eq_none]
  intro r _
  simpa using r.name?_ne_empty

/-- **A registry is empty** if no manifest of `records` declares a name. -/
theorem isEmpty_build (records : List ManifestRecord) :
    (build records).isEmpty = true ↔ ∀ r ∈ records, r.name? = none := by
  have hempty : (build records).isEmpty = true ↔ ∀ name, (build records).get? name = none := by
    unfold isEmpty Dict.isEmpty get? Dict.get?
    cases hentries : (build records).owners.entries with
    | nil => simp [findMember?]
    | cons entry rest =>
      obtain ⟨key, owner⟩ := entry
      simp only [List.isEmpty_cons, Bool.false_eq_true, false_iff, not_forall]
      exact ⟨key, by simp [findMember?_cons]⟩
  rw [hempty]
  simp only [get?_build, List.find?_eq_none, decide_eq_true_eq]
  constructor
  · intro h r hr
    cases hname : r.name? with
    | none => rfl
    | some name => exact absurd hname (h name r hr)
  · intro h name r hr
    simp [h r hr]

/-! ## Conflicts -/

/-- The manifest of `record` that is entered is left out if its name has an owner. -/
theorem mem_conflicts_add {registry : Registry} {record : ManifestRecord} {c : NameConflict} :
    c ∈ (registry.add record).conflicts ↔ c ∈ registry.conflicts ∨
      record.name? = some c.name ∧ c.rejected = record.path ∧
        ∃ owner, registry.get? c.name = some owner ∧ c.kept = owner.path := by
  obtain ⟨own, kept, rejected⟩ := c
  unfold add
  cases hname : record.name? with
  | none => simp
  | some name =>
    dsimp only
    cases howner : registry.get? name with
    | none =>
      have hfree : ∀ owner, name = own → registry.get? own ≠ some owner := by
        rintro owner rfl hget
        rw [howner] at hget
        cases hget
      simpa using fun hsame _ owner hget => absurd hget (hfree owner hsame)
    | some owner =>
      simp only [List.mem_append, List.mem_singleton, NameConflict.mk.injEq, Option.some.injEq]
      refine or_congr_right ⟨?_, ?_⟩
      · rintro ⟨rfl, rfl, rfl⟩
        exact ⟨rfl, rfl, owner, howner, rfl⟩
      · rintro ⟨rfl, rfl, owner', howner', rfl⟩
        rw [howner, Option.some.injEq] at howner'
        exact ⟨rfl, by rw [howner'], rfl⟩

theorem mem_conflicts_foldl_add {registry : Registry} {records : List ManifestRecord}
    {c : NameConflict} :
    c ∈ (records.foldl add registry).conflicts ↔ c ∈ registry.conflicts ∨
      ∃ before r after, records = before ++ r :: after ∧ r.name? = some c.name ∧
        c.rejected = r.path ∧
        ∃ owner, (before.foldl add registry).get? c.name = some owner ∧ c.kept = owner.path := by
  induction records generalizing registry with
  | nil => simp
  | cons record rest ih =>
    rw [List.foldl_cons, ih, mem_conflicts_add, or_assoc]
    refine or_congr_right ⟨?_, ?_⟩
    · rintro (hfirst | ⟨before, r, after, rfl, hr⟩)
      · exact ⟨[], record, rest, rfl, hfirst⟩
      · exact ⟨record :: before, r, after, rfl, hr⟩
    · rintro ⟨before, r, after, hsplit, hr⟩
      rcases List.cons_eq_append_iff.1 hsplit with ⟨rfl, hsame⟩ | ⟨more, rfl, hmore⟩
      · obtain ⟨rfl, -⟩ := List.cons.inj hsame
        exact .inl hr
      · exact .inr ⟨more, r, after, hmore, hr⟩

/-- **A conflict `c`** is a manifest that declares a name of which an earlier one is the owner. -/
theorem mem_conflicts_build {records : List ManifestRecord} {c : NameConflict} :
    c ∈ (build records).conflicts ↔ ∃ before r after owner, records = before ++ r :: after ∧
      r.name? = some c.name ∧ c.rejected = r.path ∧ c.kept = owner.path ∧
      ManifestRecord.FirstToDeclare before c.name owner := by
  have hfirst : ∀ (before : List ManifestRecord) (r owner : ManifestRecord),
      r.name? = some c.name → ((before.foldl add {}).get? c.name = some owner ↔
        ManifestRecord.FirstToDeclare before c.name owner) := by
    intro before r owner hname
    exact get?_build_eq_some fun hempty => r.name?_ne_empty (hempty ▸ hname)
  rw [build, mem_conflicts_foldl_add]
  constructor
  · rintro (hnone | ⟨before, r, after, hsplit, hname, hrejected, owner, howner, hkept⟩)
    · cases hnone
    · exact ⟨before, r, after, owner, hsplit, hname, hrejected, hkept,
        (hfirst before r owner hname).1 howner⟩
  · rintro ⟨before, r, after, owner, hsplit, hname, hrejected, hkept, howner⟩
    exact .inr ⟨before, r, after, hsplit, hname, hrejected, owner,
      (hfirst before r owner hname).2 howner, hkept⟩

/-- **Who is left out**: every other manifest `r` that declares the name of an `owner`. -/
theorem mem_conflicts_of_declares {records : List ManifestRecord} {name : String}
    {owner r : ManifestRecord} (howner : ManifestRecord.FirstToDeclare records name owner)
    (hr : r ∈ records) (hname : r.name? = some name) (hother : r ≠ owner) :
    ⟨name, owner.path, r.path⟩ ∈ (build records).conflicts := by
  obtain ⟨before, after, rfl, howns, hbefore⟩ := howner
  have hne : name ≠ "" := fun hempty => r.name?_ne_empty (hempty ▸ hname)
  have hdeclares : r.Declares name := (ManifestRecord.declares_iff hne).2 hname
  have hafter : r ∈ after := by
    rcases List.mem_append.1 hr with hr | hr
    · exact absurd hdeclares (hbefore r hr)
    · exact (List.mem_cons.1 hr).resolve_left hother
  obtain ⟨between, last, rfl⟩ := List.append_of_mem hafter
  exact mem_conflicts_build.2 ⟨before ++ owner :: between, r, last, owner, by simp, hname, rfl, rfl,
    before, between, rfl, howns, hbefore⟩

/-! ## All conflicts, in their order -/

theorem build_concat (records : List ManifestRecord) (r : ManifestRecord) :
    build (records ++ [r]) = (build records).add r := List.foldl_concat ..

theorem conflicts_add (registry : Registry) (record : ManifestRecord) :
    (registry.add record).conflicts = registry.conflicts ++
      (record.name?.bind fun name => (registry.get? name).map fun owner =>
        NameConflict.mk name owner.path record.path).toList := by
  unfold add
  cases record.name? with
  | none => simp
  | some name =>
    dsimp only [Option.bind_some]
    cases registry.get? name with
    | none => simp
    | some owner => rfl

theorem isRepeated_iff {records : List ManifestRecord} {r : ManifestRecord} {name : String}
    (hname : r.name? = some name) :
    r.isRepeated records = ((build records).get? name).isSome := by
  rw [get?_build, List.isSome_find?, ManifestRecord.isRepeated, hname]
  rfl

/-- The conflict leaves out the manifest `r`, in favour of the first one that declares its name. -/
structure LeavesOut (records : List ManifestRecord) (c : NameConflict) (r : ManifestRecord) :
    Prop where
  named : c.name ≠ ""
  declares : r.Declares c.name
  rejected : c.rejected = r.path
  kept : ∃ owner, ManifestRecord.FirstToDeclare records c.name owner ∧ c.kept = owner.path

theorem LeavesOut.append {records : List ManifestRecord} {c : NameConflict} {r : ManifestRecord}
    (h : LeavesOut records c r) (more : List ManifestRecord) : LeavesOut (records ++ more) c r := by
  obtain ⟨owner, howner, hkept⟩ := h.kept
  exact ⟨h.named, h.declares, h.rejected, owner, howner.append more, hkept⟩

/-- **The conflicts** leave out the manifests that are `repeated`, one after the other. -/
theorem forall₂_conflicts_build (records : List ManifestRecord) :
    List.Forall₂ (LeavesOut records) (build records).conflicts (ManifestRecord.repeated records) := by
  induction records using List.reverseRecOn with
  | nil => exact .nil
  | append_singleton records r ih =>
    rw [build_concat, conflicts_add, ManifestRecord.repeated_concat]
    refine List.rel_append (ih.imp fun _ _ h => h.append [r]) ?_
    cases hname : r.name? with
    | none => simp [ManifestRecord.isRepeated, hname]
    | some name =>
      have hne : name ≠ "" := fun hempty => r.name?_ne_empty (hempty ▸ hname)
      rw [isRepeated_iff hname]
      cases howner : (build records).get? name with
      | none => simp [howner]
      | some owner =>
        have hfirst := ((get?_build_eq_some hne).1 howner).append [r]
        simpa [howner] using LeavesOut.mk hne ((ManifestRecord.declares_iff hne).2 hname) rfl
          ⟨owner, hfirst, rfl⟩

/-- All conflicts about one `name` are in favour of one manifest. -/
theorem kept_eq_of_name_eq {records : List ManifestRecord} {c c' : NameConflict}
    (hc : c ∈ (build records).conflicts) (hc' : c' ∈ (build records).conflicts)
    (hname : c.name = c'.name) : c.kept = c'.kept := by
  obtain ⟨before, r, after, owner, rfl, hr, -, hkept, hfirst⟩ := mem_conflicts_build.1 hc
  obtain ⟨before', r', after', owner', hsplit, -, -, hkept', hfirst'⟩ := mem_conflicts_build.1 hc'
  have hne : c.name ≠ "" := fun hempty => r.name?_ne_empty (hempty ▸ hr)
  have howner := (get?_build_eq_some hne).2 (hfirst.append (r :: after))
  have howner' := (get?_build_eq_some (hname ▸ hne)).2 (hfirst'.append (r' :: after'))
  rw [← hsplit, ← hname, howner, Option.some.injEq] at howner'
  rw [hkept, hkept', howner']

theorem size_add (registry : Registry) (record : ManifestRecord) :
    (registry.add record).size + (registry.add record).conflicts.length =
      registry.size + registry.conflicts.length + (if record.name?.isSome then 1 else 0) := by
  unfold add
  cases record.name? with
  | none => rfl
  | some name =>
    dsimp only
    cases howner : registry.get? name with
    | some owner =>
      show registry.size + (registry.conflicts ++ [_]).length = _
      rw [List.length_append]
      exact (Nat.add_assoc ..).symm
    | none =>
      show (registry.owners.insert name record).size + registry.conflicts.length = _
      rw [Dict.size_insert_of_none howner]
      exact Nat.add_right_comm ..

/-- **Every manifest of `records` with a name** is an owner or a conflict. -/
theorem size_build (records : List ManifestRecord) :
    (build records).size + (build records).conflicts.length =
      (records.filter (·.name?.isSome)).length := by
  induction records using List.reverseRecOn with
  | nil => rfl
  | append_singleton records r ih =>
    rw [build_concat, size_add, ih, List.filter_append, List.length_append, List.filter_singleton]
    cases r.name?.isSome <;> rfl

/-- **The first declaration owns the name.** A `name` belongs to the manifest that is
`FirstToDeclare` it. The `conflicts` are the later manifests that declare it, one after the other,
each with the path of the first one as `kept`; so every manifest with a name is an owner or a
conflict. -/
theorem first_declaration_owns (records : List ManifestRecord) :
    (∀ name, name ≠ "" →
      (∀ owner, (build records).get? name = some owner ↔
        ManifestRecord.FirstToDeclare records name owner) ∧
      ((build records).get? name = none ↔ ∀ r ∈ records, ¬r.Declares name)) ∧
    List.Forall₂ (LeavesOut records) (build records).conflicts (ManifestRecord.repeated records) ∧
    (build records).size + (build records).conflicts.length =
      (records.filter (·.name?.isSome)).length ∧
    ∀ c ∈ (build records).conflicts, ∀ c' ∈ (build records).conflicts, c.name = c'.name →
      c.kept = c'.kept := by
  refine ⟨fun name hne => ⟨fun owner => get?_build_eq_some hne, ?_⟩,
    forall₂_conflicts_build records, size_build records, fun c hc c' hc' => kept_eq_of_name_eq hc hc'⟩
  simp only [get?_build, List.find?_eq_none, decide_eq_true_eq, ManifestRecord.declares_iff hne]

/-- A manifest that could not be read, one without a name, and three that declare the same one. -/
def namesakes : List ManifestRecord :=
  [⟨"a/package.json", .error "no"⟩, ⟨"b/package.json", .ok { name := some "n" }⟩,
    ⟨"c/package.json", .ok { name := some "n" }⟩, ⟨"d/package.json", .ok { name := some "" }⟩,
    ⟨"e/package.json", .ok { name := some "n" }⟩]

/-- The first of the `namesakes` that could be read owns the name, and both others are left out for
it. -/
theorem first_declaration_owns_namesakes :
    "n" ≠ "" ∧
    ((build namesakes).get? "n").map (·.path) = some "b/package.json" ∧
    (build namesakes).conflicts =
      [⟨"n", "b/package.json", "c/package.json"⟩, ⟨"n", "b/package.json", "e/package.json"⟩] ∧
    ∀ c ∈ (build namesakes).conflicts, c.name = "n" → c.kept = "b/package.json" := by
  have hne : "n" ≠ "" := by decide
  have hconflicts : (build namesakes).conflicts =
      [⟨"n", "b/package.json", "c/package.json"⟩, ⟨"n", "b/package.json", "e/package.json"⟩] := by
    decide +kernel
  obtain ⟨howner, -, -, hkept⟩ := first_declaration_owns namesakes
  have hfirst : (build namesakes).get? "n" =
      some ⟨"b/package.json", .ok { name := some "n" }⟩ := by
    refine ((howner "n" hne).1 _).2 ⟨[⟨"a/package.json", .error "no"⟩], _, rfl, ⟨_, rfl, rfl⟩, ?_⟩
    rintro r hr ⟨manifest, hread, -⟩
    rw [List.mem_singleton.1 hr] at hread
    cases hread
  refine ⟨hne, by rw [hfirst]; rfl, hconflicts, fun c hc hname => ?_⟩
  exact hkept c hc ⟨"n", "b/package.json", "c/package.json"⟩ (by rw [hconflicts]; simp) hname

end Registry

end FlowMigration
