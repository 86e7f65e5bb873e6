import FlowMigration.Conversion
import FlowMigration.Proofs.Package.Usage
import Mathlib.Algebra.GroupWithZero.Nat
import Mathlib.Data.List.Forall2
import Mathlib.Data.List.Perm.Basic

/-!
# What becomes of a file that is handed over

A file that was scanned is read again, converted, formatted if there is a formatter, and delivered.
Each of these steps can fail, for one file and not for another.

* `Conversion.HandsOver`: what is to be delivered of a file.
* `Conversion.GoesThrough`: it is delivered, too.
* `Conversion.map_path_all`, `Conversion.perm_tally`: a tally holds the files that could be scanned.
* `Conversion.dispatch_outcomes`: the tally of some files and what is delivered of them, file by
  file.
-/

namespace FlowMigration

/-- The paths of those of `files` that could be read. -/
def ScannedFile.readable (files : List ScannedFile) : List String :=
  (files.filter (!·.isFailed)).map (·.path)

namespace Conversion

theorem path_ofFile (c : Collaborators) (disk : Disk) (root : String) (compiler : CompilerOptions)
    (path : String) (options : SourceOptions) :
    (ofFile c disk root compiler path options).path = path := by
  unfold ofFile
  split <;> rfl

/-! ## One file -/

section

variable (c : Collaborators) (disk : Disk) (root : String) (compiler : CompilerOptions)

/-- The conversion of `file`, if it could be scanned. -/
def ofScanned? (file : ScannedFile) : Option Conversion :=
  file.outcome.toOption.map (ofFile c disk root compiler file.path)

/-- What is to be delivered of a file is `text`: the file could be scanned, and is read again; a
converter answers with a text, and a formatter, if there is one, with another one for that. -/
def HandsOver (file : ScannedFile) (text : String) : Prop :=
  ∃ options source converted, file.outcome = .ok options ∧
    disk.read (Path.join root file.path) = .ok source ∧
    c.convert file.path source options compiler = .ok converted ∧
    match c.format with
    | some format => format file.path converted = .ok text
    | none => converted = text

/-- What is to be delivered of `file` is taken. -/
def GoesThrough (file : ScannedFile) : Prop :=
  ∃ text, HandsOver c disk root compiler file text ∧ c.deliver file.path text = .ok ()

end

section

variable {c : Collaborators} {disk : Disk} {root : String} {compiler : CompilerOptions}

theorem textOf_eq_ok {path text : String} {options : SourceOptions} :
    textOf c disk root compiler path options = .ok text ↔
      ∃ source converted, disk.read (Path.join root path) = .ok source ∧
        c.convert path source options compiler = .ok converted ∧
        match c.format with
        | some format => format path converted = .ok text
        | none => converted = text := by
  unfold textOf
  cases hread : disk.read (Path.join root path) with
  | error e => simp [hread, Except.mapError, bind, Except.bind]
  | ok source =>
    cases hconvert : c.convert path source options compiler with
    | error failure => simp [hread, hconvert, Except.mapError, bind, Except.bind]
    | ok converted =>
      cases c.format with
      | some format => simp [hread, hconvert, Except.mapError, bind, Except.bind]
      | none => simp [hread, hconvert, Except.mapError, bind, Except.bind]

theorem handsOver_iff {file : ScannedFile} {text : String} :
    HandsOver c disk root compiler file text ↔ ∃ options, file.outcome = .ok options ∧
      textOf c disk root compiler file.path options = .ok text := by
  simp only [HandsOver, textOf_eq_ok]
  constructor
  · rintro ⟨options, source, converted, hscanned, h⟩
    exact ⟨options, hscanned, source, converted, h⟩
  · rintro ⟨options, hscanned, source, converted, h⟩
    exact ⟨options, source, converted, hscanned, h⟩

/-- **What is delivered** of `file` is what it `HandsOver`. -/
theorem delivered_iff {file : ScannedFile} {text : String} :
    (ofScanned? c disk root compiler file).bind (·.delivered) = some text ↔
      HandsOver c disk root compiler file text := by
  rw [handsOver_iff, ofScanned?]
  cases file.outcome with
  | error failure => simp [Except.toOption]
  | ok options =>
    simp only [Except.toOption, Option.map_some, Option.bind_some, Except.ok.injEq, exists_eq_left']
    unfold ofFile
    cases textOf c disk root compiler file.path options with
    | error failure => simp
    | ok found => simp

/-- **Whether `file` `GoesThrough`** is told by the outcome of its conversion. -/
theorem goesThrough_iff {file : ScannedFile} :
    (ofScanned? c disk root compiler file).any (·.outcome.isOk) = true ↔
      GoesThrough c disk root compiler file := by
  simp only [GoesThrough, handsOver_iff, ofScanned?]
  cases file.outcome with
  | error failure => simp [Except.toOption]
  | ok options =>
    simp only [Except.toOption, Option.map_some, Option.any_some, Except.ok.injEq, exists_eq_left']
    unfold ofFile
    cases textOf c disk root compiler file.path options with
    | error failure => simp [Except.isOk, Except.toBool]
    | ok text =>
      cases hdeliver : c.deliver file.path text with
      | error failure => simp [hdeliver, Except.isOk, Except.toBool]
      | ok done => simp [hdeliver, Except.isOk, Except.toBool]

theorem path_of_ofScanned? {file : ScannedFile} {conversion : Conversion}
    (h : ofScanned? c disk root compiler file = some conversion) : conversion.path = file.path := by
  obtain ⟨options, -, rfl⟩ := Option.map_eq_some_iff.1 h
  exact path_ofFile ..

/-- What is delivered of one `file`, with its path. -/
theorem delivery_iff {file : ScannedFile} {d : String × String} :
    ((ofScanned? c disk root compiler file).bind fun conversion =>
        conversion.delivered.map fun text => (conversion.path, text)) = some d ↔
      d.1 = file.path ∧ HandsOver c disk root compiler file d.2 := by
  obtain ⟨path, text⟩ := d
  rw [← delivered_iff]
  cases hconversion : ofScanned? c disk root compiler file with
  | none => simp
  | some conversion =>
    have hpath := path_of_ofScanned? hconversion
    simp only [Option.bind_some, Option.map_eq_some_iff, Prod.mk.injEq, hpath, eq_comm (b := path)]
    constructor
    · rintro ⟨_, hdelivered, hsame, rfl⟩
      exact ⟨hsame, hdelivered⟩
    · rintro ⟨hsame, hdelivered⟩
      exact ⟨text, hdelivered, hsame, rfl⟩

end

instance (c : Collaborators) (disk : Disk) (root : String) (compiler : CompilerOptions)
    (file : ScannedFile) : Decidable (GoesThrough c disk root compiler file) :=
  decidable_of_iff _ goesThrough_iff

instance (c : Collaborators) (disk : Disk) (root : String) (compiler : CompilerOptions)
    (file : ScannedFile) : Decidable (∃ text, HandsOver c disk root compiler file text) :=
  decidable_of_iff (((ofScanned? c disk root compiler file).bind (·.delivered)).isSome = true) <| by
    simp only [Option.isSome_iff_exists, delivered_iff]

/-! ## All files -/

/-- What `f` maps a list to stands, in order, for the elements that are mapped to something. -/
theorem forall₂_filterMap {α β : Type} (f : α → Option β) (xs : List α) :
    List.Forall₂ (fun a b => f a = some b) (xs.filter fun a => (f a).isSome) (xs.filterMap f) := by
  induction xs with
  | nil => exact .nil
  | cons x rest ih =>
    cases hx : f x with
    | none => simpa [hx] using ih
    | some y => simpa [hx] using ih

section

variable (c : Collaborators) (disk : Disk) (root : String) (compiler : CompilerOptions)
  (files : List ScannedFile)

theorem all_eq : all c disk root compiler files = files.filterMap (ofScanned? c disk root compiler) :=
  rfl

/-- **The conversions with a property `p`** are those of the files whose conversion has it, in their
order. -/
theorem map_path_filter_all (p : Conversion → Bool) :
    ((all c disk root compiler files).filter p).map (·.path) =
      (files.filter fun file => (ofScanned? c disk root compiler file).any p).map (·.path) := by
  rw [all_eq]
  induction files with
  | nil => rfl
  | cons file rest ih =>
    cases hconversion : ofScanned? c disk root compiler file with
    | none =>
      rw [List.filterMap_cons_none hconversion, List.filter_cons, hconversion]
      exact ih
    | some conversion =>
      rw [List.filterMap_cons_some hconversion, List.filter_cons, List.filter_cons, hconversion,
        Option.any_some]
      split
      · exact congrArg₂ List.cons (path_of_ofScanned? hconversion) ih
      · exact ih

/-- **Every file that is `readable` is handed over.** -/
theorem map_path_all :
    (all c disk root compiler files).map (·.path) = ScannedFile.readable files := by
  have hall := map_path_filter_all c disk root compiler files fun _ => true
  rw [List.filter_true] at hall
  rw [hall, ScannedFile.readable]
  refine congrArg _ (List.filter_congr fun file _ => ?_)
  unfold ofScanned? ScannedFile.isFailed
  cases file.outcome with
  | error failure => rfl
  | ok options => rfl

/-- **What is delivered**, file by file: everything that a file `HandsOver`, and nothing else. -/
theorem forall₂_deliveries :
    List.Forall₂ (fun file d => d.1 = file.path ∧ HandsOver c disk root compiler file d.2)
      (files.filter fun file => ∃ text, HandsOver c disk root compiler file text)
      (deliveries (all c disk root compiler files)) := by
  have hsome : (files.filter fun file => ∃ text, HandsOver c disk root compiler file text) =
      files.filter fun file => ((ofScanned? c disk root compiler file).bind fun conversion =>
        conversion.delivered.map fun text => (conversion.path, text)).isSome := by
    refine List.filter_congr fun file _ => ?_
    rw [Bool.eq_iff_iff, decide_eq_true_eq, Option.isSome_iff_exists]
    simp only [delivery_iff, Prod.exists, exists_and_left, exists_eq_left]
  rw [all_eq, deliveries, List.filterMap_filterMap, hsome]
  refine (forall₂_filterMap _ files).imp fun file d hsent => ?_
  exact delivery_iff.1 hsent

end

/-- **A `tally` holds the files** that were handed over. -/
theorem perm_tally (conversions : List Conversion) :
    ((tally conversions).converted ++ (tally conversions).failed).Perm
      (conversions.map (·.path)) := by
  rw [tally, ← List.map_append]
  exact (List.filter_append_perm (·.outcome.isOk) conversions).map _

theorem tally_append (conversions more : List Conversion) :
    tally (conversions ++ more) = (tally conversions).append (tally more) := by
  simp only [tally, Tally.append, List.filter_append, List.map_append]

theorem deliveries_append (conversions more : List Conversion) :
    deliveries (conversions ++ more) = deliveries conversions ++ deliveries more :=
  List.filterMap_append

theorem all_append (c : Collaborators) (disk : Disk) (root : String) (compiler : CompilerOptions)
    (files more : List ScannedFile) :
    all c disk root compiler (files ++ more) =
      all c disk root compiler files ++ all c disk root compiler more := List.filterMap_append

/-! ## Handing files over -/

/-- The `files` that are handed over come to `tally`, and `delivered` is handed out; the disk of `p`
stays as it is. -/
def Comes (c : Collaborators) (root : String) (compiler : CompilerOptions) (p : Progress)
    (files : List ScannedFile) (tally : Tally) (delivered : List (String × String)) : Prop :=
  ∃ log, dispatch c root compiler files p =
    (.ok tally, ⟨p.disk, p.log ++ log, p.deliveries ++ delivered⟩)

theorem comes_dispatch (c : Collaborators) (root : String) (compiler : CompilerOptions)
    (p : Progress) (files : List ScannedFile) :
    Comes c root compiler p files (tally (all c p.disk root compiler files))
      (deliveries (all c p.disk root compiler files)) := ⟨_, rfl⟩

/-- **What becomes of each file.** The files that could be scanned come into one of the two lists of
the `Tally` each, in their order: into `converted` those that could be read, converted, formatted
and delivered (`GoesThrough`), into `failed` the others. What is delivered is what each file
`HandsOver`, once. And each file fares as it does alone, whatever becomes of those beside it. -/
theorem dispatch_outcomes (c : Collaborators) (root : String) (compiler : CompilerOptions)
    (p : Progress) (files : List ScannedFile) :
    ∃ tally delivered, Comes c root compiler p files tally delivered ∧
      (tally.converted ++ tally.failed).Perm (ScannedFile.readable files) ∧
      tally.converted = (files.filter (GoesThrough c p.disk root compiler ·)).map (·.path) ∧
      tally.failed = (files.filter fun file =>
        ¬file.isFailed ∧ ¬GoesThrough c p.disk root compiler file).map (·.path) ∧
      List.Forall₂ (fun file d => d.1 = file.path ∧ HandsOver c p.disk root compiler file d.2)
        (files.filter fun file => ∃ text, HandsOver c p.disk root compiler file text) delivered ∧
      ∀ before after, ∃ tally₁ delivered₁ tally₂ delivered₂,
        Comes c root compiler p before tally₁ delivered₁ ∧
        Comes c root compiler p after tally₂ delivered₂ ∧
        Comes c root compiler p (before ++ (files ++ after)) (tally₁.append (tally.append tally₂))
          (delivered₁ ++ (delivered ++ delivered₂)) := by
  refine ⟨_, _, comes_dispatch c root compiler p files, ?_, ?_, ?_, forall₂_deliveries .., ?_⟩
  · rw [← map_path_all c p.disk root compiler files]
    exact perm_tally _
  · refine (map_path_filter_all ..).trans (congrArg _ (List.filter_congr fun file _ => ?_))
    rw [Bool.eq_iff_iff, goesThrough_iff, decide_eq_true_eq]
  · refine (map_path_filter_all ..).trans (congrArg _ (List.filter_congr fun file _ => ?_))
    rw [Bool.eq_iff_iff, decide_eq_true_eq, ← goesThrough_iff]
    unfold ofScanned? ScannedFile.isFailed
    cases file.outcome with
    | error failure => simp [Except.toOption]
    | ok options => simp [Except.toOption]
  · intro before after
    refine ⟨_, _, _, _, comes_dispatch c root compiler p before,
      comes_dispatch c root compiler p after, ?_⟩
    rw [← tally_append, ← tally_append, ← deliveries_append, ← deliveries_append, ← all_append,
      ← all_append]
    exact comes_dispatch ..

end Conversion

end FlowMigration
