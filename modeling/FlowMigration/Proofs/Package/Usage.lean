import FlowMigration.Package.Usage
import FlowMigration.Proofs.Json.Members
import FlowMigration.Proofs.Specifier

/-!
# What a package uses, file by file

The summary of scanned files is put together one file and one import at a time. Here is what comes
out of it.

* `failedFiles_ofScan`, `lexicalFiles_ofScan`, `filesScanned_ofScan`: the files that could not be
  read, those that could not be parsed, and the number of those that could be read.
* `Collects.mem_ofScan`: a set into which every import enters something holds, in the end, what the
  imports of all files entered. `mem_packageNames_ofScan` is the case of the packages.
* `Manifest.get?_declared`: the declared dependencies of a manifest.
* `summarizes_ofScan`: the whole summary.
* `relativeImports_canonical`: relative imports are canonical where no backslash stands in their
  way.
-/

namespace FlowMigration

namespace ScannedFile

/-- The `file` could not be read. -/
def isFailed (file : ScannedFile) : Bool :=
  match file.outcome with
  | .error _ => true
  | .ok _ => false

/-- The `file` could be read, but not parsed. -/
def isLexical (file : ScannedFile) : Bool :=
  match file.outcome with
  | .error _ => false
  | .ok options => options.lexical

/-- What could be read of the `file` meets the condition `p`. -/
def meets (p : SourceOptions → Bool) (file : ScannedFile) : Bool :=
  match file.outcome with
  | .error _ => false
  | .ok options => p options

/-- Some import of the file, which could be read, is one of the package `name`. -/
def ImportsPackage (file : ScannedFile) (name : String) : Prop :=
  ∃ options, file.outcome = .ok options ∧ ∃ request ∈ options.imports,
    request.toList.head? ≠ some '.' ∧ Specifier.packageName request = name

end ScannedFile

namespace Usage

/-! ## Declared dependencies -/

/-- A `usage` with other declared dependencies. -/
def declaring (declared : Dict String) (usage : Usage) : Usage :=
  { usage with declaredDependencies := declared }

theorem foldl_addImport_declaring (declared : Dict String) (usage : Usage) (path : String)
    (isFlow : Bool) (requests : List String) :
    requests.foldl (addImport path isFlow) (usage.declaring declared) =
      (requests.foldl (addImport path isFlow) usage).declaring declared := by
  refine List.foldl_hom (declaring declared) fun usage request => ?_
  rw [addImport, addImport]
  split <;> rfl

theorem addOptions_declaring (declared : Dict String) (usage : Usage) (path : String)
    (options : SourceOptions) :
    (usage.declaring declared).addOptions path options =
      (usage.addOptions path options).declaring declared := by
  rw [addOptions, addOptions, ← foldl_addImport_declaring]
  rfl

/-- The `declared` dependencies do not count when scanned files are entered. -/
theorem foldl_add_declaring (declared : Dict String) (usage : Usage) (scanned : List ScannedFile) :
    scanned.foldl add (usage.declaring declared) = (scanned.foldl add usage).declaring declared := by
  refine List.foldl_hom (declaring declared) fun usage file => ?_
  rw [add, add]
  split
  · exact addOptions_declaring declared usage _ _
  · rfl

/-- **The `manifest` says nothing about the files**, and they nothing about it. -/
theorem ofScan_eq (manifest : Option Manifest) (scanned : List ScannedFile) :
    ofScan manifest scanned =
      (scanned.foldl add {}).declaring ((manifest.map Manifest.declared).getD .empty) :=
  foldl_add_declaring _ {} scanned

theorem compilerOptions_ofScan (manifest manifest' : Option Manifest)
    (scanned : List ScannedFile) :
    (ofScan manifest' scanned).compilerOptions = (ofScan manifest scanned).compilerOptions := by
  rw [ofScan_eq, ofScan_eq]
  rfl

/-! ## Files -/

/-- **Imports change nothing but the sets** that `addImport` enters them into. -/
theorem exists_addImports_eq (path : String) (isFlow : Bool) (usage : Usage)
    (requests : List String) : ∃ external names relative flowRelative,
      requests.foldl (addImport path isFlow) usage =
        { usage with
          externalDependencies := external
          packageNames := names
          relativeImports := relative
          flowRelativeImports := flowRelative } := by
  induction requests generalizing usage with
  | nil => exact ⟨_, _, _, _, rfl⟩
  | cons request rest ih =>
    obtain ⟨external, names, relative, flowRelative, he⟩ := ih (usage.addImport path isFlow request)
    refine ⟨external, names, relative, flowRelative, ?_⟩
    rw [List.foldl_cons, he, addImport]
    split <;> rfl

theorem files_add (usage : Usage) (file : ScannedFile) :
    (usage.add file).failedFiles =
        usage.failedFiles ++ (if file.isFailed then [file.path] else []) ∧
      (usage.add file).lexicalFiles =
        usage.lexicalFiles ++ (if file.isLexical then [file.path] else []) ∧
      (usage.add file).filesScanned = usage.filesScanned + (if file.isFailed then 0 else 1) := by
  unfold add ScannedFile.isFailed ScannedFile.isLexical
  cases file.outcome with
  | error failure => simp
  | ok options =>
    simp only [addOptions]
    obtain ⟨_, _, _, _, he⟩ := exists_addImports_eq ..
    rw [he]
    by_cases hlexical : options.lexical = true
    · simp [hlexical]
    · simp [hlexical]

theorem flags_add (usage : Usage) (file : ScannedFile) :
    (usage.add file).hasJs = (usage.hasJs || file.meets (!·.isFlow)) ∧
      (usage.add file).hasJsx = (usage.hasJsx || file.meets (·.hasJsx)) := by
  unfold add ScannedFile.meets
  cases file.outcome with
  | error failure => simp
  | ok options =>
    simp only [addOptions]
    obtain ⟨_, _, _, _, he⟩ := exists_addImports_eq ..
    rw [he]
    exact ⟨rfl, rfl⟩

theorem files_foldl (usage : Usage) (files : List ScannedFile) :
    (files.foldl add usage).failedFiles =
        usage.failedFiles ++ (files.filter (·.isFailed)).map (·.path) ∧
      (files.foldl add usage).lexicalFiles =
        usage.lexicalFiles ++ (files.filter (·.isLexical)).map (·.path) ∧
      (files.foldl add usage).filesScanned =
        usage.filesScanned + (files.filter (!·.isFailed)).length := by
  induction files generalizing usage with
  | nil => simp
  | cons file rest ih =>
    obtain ⟨hfailed, hlexical, hscanned⟩ := files_add usage file
    obtain ⟨hfailed', hlexical', hscanned'⟩ := ih (usage.add file)
    rw [List.foldl_cons, hfailed', hlexical', hscanned', hfailed, hlexical, hscanned,
      List.filter_cons, List.filter_cons, List.filter_cons]
    refine ⟨?_, ?_, ?_⟩
    · split <;> simp
    · split <;> simp
    · cases file.isFailed with
      | true => simp
      | false => simp [Nat.add_assoc, Nat.add_comm 1]

/-- **The `files` that could not be read**, in their order. -/
theorem failedFiles_ofScan (manifest : Option Manifest) (files : List ScannedFile) :
    (ofScan manifest files).failedFiles = (files.filter (·.isFailed)).map (·.path) :=
  (files_foldl _ files).1

/-- **The `files` that could not be parsed**, in their order. -/
theorem lexicalFiles_ofScan (manifest : Option Manifest) (files : List ScannedFile) :
    (ofScan manifest files).lexicalFiles = (files.filter (·.isLexical)).map (·.path) :=
  (files_foldl _ files).2.1

/-- **How many `files` were scanned**: those that could be read. -/
theorem filesScanned_ofScan (manifest : Option Manifest) (files : List ScannedFile) :
    (ofScan manifest files).filesScanned = (files.filter (!·.isFailed)).length :=
  (files_foldl _ files).2.2.trans (Nat.zero_add _)

theorem flags_foldl (usage : Usage) (files : List ScannedFile) :
    (files.foldl add usage).hasJs = (usage.hasJs || files.any (·.meets (!·.isFlow))) ∧
      (files.foldl add usage).hasJsx = (usage.hasJsx || files.any (·.meets (·.hasJsx))) := by
  induction files generalizing usage with
  | nil => simp
  | cons file rest ih =>
    obtain ⟨hjs, hjsx⟩ := flags_add usage file
    obtain ⟨hjs', hjsx'⟩ := ih (usage.add file)
    rw [List.foldl_cons, hjs', hjsx', hjs, hjsx, Bool.or_assoc, Bool.or_assoc]
    exact ⟨rfl, rfl⟩

/-- **Some file is not for Flow** (`hasJs`), and some file has JSX (`hasJsx`). -/
theorem flags_ofScan (manifest : Option Manifest) (files : List ScannedFile) :
    (ofScan manifest files).hasJs = files.any (·.meets (!·.isFlow)) ∧
      (ofScan manifest files).hasJsx = files.any (·.meets (·.hasJsx)) :=
  flags_foldl _ files

end Usage

/-! ## Sets that imports are entered into -/

theorem TextSet.mem_insert {set : TextSet} {text other : String} :
    other ∈ (set.insert text).toList ↔ other = text ∨ other ∈ set.toList := by
  unfold toList insert
  rw [Dict.mem_keys, Dict.mem_keys, Dict.get?_insert]
  by_cases hsame : text = other
  · simp [hsame]
  · simp [hsame, Ne.symm hsame]

namespace Usage

/-- Imports are all that is entered into the set: the import `request` of the file at `path`, which
is or is not one for Flow, enters the texts for which `Enters path isFlow request` holds. -/
structure Collects (set : Usage → TextSet) (Enters : String → Bool → String → String → Prop) :
    Prop where
  step : ∀ usage path isFlow request text, text ∈ (set (addImport path isFlow usage request)).toList ↔
    text ∈ (set usage).toList ∨ Enters path isFlow request text
  frame : ∀ (usage : Usage) count failed lexical hasJs hasJsx, set { usage with
    filesScanned := count, failedFiles := failed, lexicalFiles := lexical, hasJs, hasJsx } = set usage
  start : ∀ declared, set { declaredDependencies := declared } = Dict.empty

namespace Collects

variable {set : Usage → TextSet} {Enters : String → Bool → String → String → Prop} {text : String}

theorem mem_addImports (h : Collects set Enters) (path : String) (isFlow : Bool) (usage : Usage)
    (requests : List String) :
    text ∈ (set (requests.foldl (addImport path isFlow) usage)).toList ↔
      text ∈ (set usage).toList ∨ ∃ request ∈ requests, Enters path isFlow request text := by
  induction requests generalizing usage with
  | nil => simp
  | cons request rest ih =>
    rw [List.foldl_cons, ih, h.step, or_assoc]
    simp only [List.mem_cons, exists_eq_or_imp]

theorem mem_add (h : Collects set Enters) (usage : Usage) (file : ScannedFile) :
    text ∈ (set (usage.add file)).toList ↔
      text ∈ (set usage).toList ∨ ∃ options, file.outcome = .ok options ∧
        ∃ request ∈ options.imports, Enters file.path options.isFlow request text := by
  unfold add
  cases file.outcome with
  | error failure =>
    have hsame : set { usage with failedFiles := usage.failedFiles ++ [file.path] } = set usage :=
      h.frame usage _ _ _ _ _
    simp [hsame]
  | ok options =>
    simp only [addOptions, h.mem_addImports, h.frame, Except.ok.injEq, exists_eq_left']

theorem mem_foldl (h : Collects set Enters) (usage : Usage) (files : List ScannedFile) :
    text ∈ (set (files.foldl add usage)).toList ↔
      text ∈ (set usage).toList ∨ ∃ file ∈ files, ∃ options, file.outcome = .ok options ∧
        ∃ request ∈ options.imports, Enters file.path options.isFlow request text := by
  induction files generalizing usage with
  | nil => simp
  | cons file rest ih =>
    rw [List.foldl_cons, ih, h.mem_add, or_assoc]
    simp only [List.mem_cons, exists_eq_or_imp]

/-- **A `set` holds what the imports of all files entered**, as far as they could be read. -/
theorem mem_ofScan (h : Collects set Enters) (manifest : Option Manifest)
    (files : List ScannedFile) :
    text ∈ (set (ofScan manifest files)).toList ↔
      ∃ file ∈ files, ∃ options, file.outcome = .ok options ∧
        ∃ request ∈ options.imports, Enters file.path options.isFlow request text := by
  rw [ofScan, h.mem_foldl, h.start]
  exact or_iff_right List.not_mem_nil

end Collects

theorem addImport_of_dot {request : String} (h : request.toList.head? = some '.') (usage : Usage)
    (path : String) (isFlow : Bool) :
    usage.addImport path isFlow request =
      { usage with
        relativeImports := usage.relativeImports.insert (Specifier.resolve path request)
        flowRelativeImports :=
          if isFlow then usage.flowRelativeImports.insert (Specifier.resolve path request)
          else usage.flowRelativeImports } := by
  rw [addImport, Specifier.classify_of_dot h]

theorem addImport_of_no_dot {request : String} (h : request.toList.head? ≠ some '.') (usage : Usage)
    (path : String) (isFlow : Bool) :
    usage.addImport path isFlow request =
      { usage with
        externalDependencies := usage.externalDependencies.insert (Specifier.moduleRoot request)
        packageNames := usage.packageNames.insert (Specifier.packageName request) } := by
  rw [addImport, Specifier.classify_of_no_dot h]

theorem collects_relativeImports : Collects relativeImports fun path _ request text =>
    request.toList.head? = some '.' ∧ Specifier.resolve path request = text where
  step usage path isFlow request text := by
    by_cases hdot : request.toList.head? = some '.'
    · rw [addImport_of_dot hdot, TextSet.mem_insert, or_comm, eq_comm, and_iff_right hdot]
    · rw [addImport_of_no_dot hdot, or_iff_left fun h => hdot h.1]
  frame _ _ _ _ _ _ := rfl
  start _ := rfl

theorem collects_flowRelativeImports : Collects flowRelativeImports fun path isFlow request text =>
    isFlow = true ∧ request.toList.head? = some '.' ∧ Specifier.resolve path request = text where
  step usage path isFlow request text := by
    by_cases hdot : request.toList.head? = some '.'
    · rw [addImport_of_dot hdot, and_iff_right hdot]
      cases isFlow with
      | true =>
        simp only [if_true, TextSet.mem_insert, true_and]
        rw [or_comm, eq_comm]
      | false => simp
    · rw [addImport_of_no_dot hdot, or_iff_left fun h => hdot h.2.1]
  frame _ _ _ _ _ _ := rfl
  start _ := rfl

theorem collects_externalDependencies : Collects externalDependencies fun _ _ request text =>
    request.toList.head? ≠ some '.' ∧ Specifier.moduleRoot request = text where
  step usage path isFlow request text := by
    by_cases hdot : request.toList.head? = some '.'
    · rw [addImport_of_dot hdot, or_iff_left fun h => h.1 hdot]
    · rw [addImport_of_no_dot hdot, TextSet.mem_insert, or_comm, eq_comm, and_iff_right hdot]
  frame _ _ _ _ _ _ := rfl
  start _ := rfl

theorem collects_packageNames : Collects packageNames fun _ _ request text =>
    request.toList.head? ≠ some '.' ∧ Specifier.packageName request = text where
  step usage path isFlow request text := by
    by_cases hdot : request.toList.head? = some '.'
    · rw [addImport_of_dot hdot, or_iff_left fun h => h.1 hdot]
    · rw [addImport_of_no_dot hdot, TextSet.mem_insert, or_comm, eq_comm, and_iff_right hdot]
  frame _ _ _ _ _ _ := rfl
  start _ := rfl

/-- **The `packageNames`** are those of the imports that do not begin with a dot. -/
theorem mem_packageNames_ofScan (manifest : Option Manifest) (files : List ScannedFile)
    (name : String) :
    name ∈ (ofScan manifest files).packageNames.toList ↔
      ∃ file ∈ files, file.ImportsPackage name :=
  collects_packageNames.mem_ofScan manifest files

/-- **The modules from outside** are the roots of the `packageNames`. -/
theorem mem_externalDependencies_iff (manifest : Option Manifest) (files : List ScannedFile)
    (module : String) :
    module ∈ (ofScan manifest files).externalDependencies.toList ↔
      ∃ name ∈ (ofScan manifest files).packageNames.toList, Specifier.moduleRoot name = module := by
  simp only [collects_externalDependencies.mem_ofScan, collects_packageNames.mem_ofScan]
  constructor
  · rintro ⟨file, hfile, options, hread, request, hrequest, hdot, rfl⟩
    exact ⟨Specifier.packageName request,
      ⟨file, hfile, options, hread, request, hrequest, hdot, rfl⟩,
      Specifier.moduleRoot_packageName request⟩
  · rintro ⟨name, ⟨file, hfile, options, hread, request, hrequest, hdot, rfl⟩, rfl⟩
    exact ⟨file, hfile, options, hread, request, hrequest, hdot,
      (Specifier.moduleRoot_packageName request).symm⟩

end Usage

/-! ## The whole summary -/

/-- **The `declared` dependencies**: a direct one counts before a dev one, and that before a peer
one. -/
theorem Manifest.get?_declared (m : Manifest) (key : String) :
    m.declared.get? key = (m.dependencies.bind (·.get? key)).or
      ((m.devDependencies.bind (·.get? key)).or (m.peerDependencies.bind (·.get? key))) := by
  have htable : ∀ table : Option (Dict String),
      (table.getD .empty).get? key = table.bind (·.get? key) := by
    intro table
    cases table with
    | none => rfl
    | some dict => rfl
  have hempty : (Dict.empty : Dict String).get? key = none := rfl
  rw [declared, Dict.get?_extend, Dict.get?_extend, Dict.get?_extend, htable, htable, htable, hempty,
    Option.or_none]

namespace Usage

/-- The `usage` says what the `files` of a package and its manifest say, and nothing else. -/
structure Summarizes (manifest : Option Manifest) (files : List ScannedFile) (usage : Usage) :
    Prop where
  counted : usage.filesScanned + usage.failedFiles.length = files.length
  failed : usage.failedFiles = (files.filter (·.isFailed)).map (·.path)
  lexical : usage.lexicalFiles = (files.filter (·.isLexical)).map (·.path)
  relative : ∀ target, target ∈ usage.relativeImports.toList ↔
    ∃ file ∈ files, ∃ options, file.outcome = .ok options ∧ ∃ request ∈ options.imports,
      request.toList.head? = some '.' ∧ Specifier.resolve file.path request = target
  flowRelative : ∀ target, target ∈ usage.flowRelativeImports.toList ↔
    ∃ file ∈ files, ∃ options, file.outcome = .ok options ∧ ∃ request ∈ options.imports,
      options.isFlow = true ∧ request.toList.head? = some '.' ∧
        Specifier.resolve file.path request = target
  external : ∀ module, module ∈ usage.externalDependencies.toList ↔
    ∃ file ∈ files, ∃ options, file.outcome = .ok options ∧ ∃ request ∈ options.imports,
      request.toList.head? ≠ some '.' ∧ Specifier.moduleRoot request = module
  packages : ∀ name, name ∈ usage.packageNames.toList ↔
    ∃ file ∈ files, ∃ options, file.outcome = .ok options ∧ ∃ request ∈ options.imports,
      request.toList.head? ≠ some '.' ∧ Specifier.packageName request = name
  roots : ∀ module, module ∈ usage.externalDependencies.toList ↔
    ∃ name ∈ usage.packageNames.toList, Specifier.moduleRoot name = module
  allowJs : usage.compilerOptions.allowJs =
    if ∃ file ∈ files, file.meets (!·.isFlow) then some true else none
  jsx : usage.compilerOptions.jsx =
    if ∃ file ∈ files, file.meets (·.hasJsx) then some "react" else none
  strict : usage.compilerOptions.strict = false
  declared : ∀ key, usage.declaredDependencies.get? key =
    ((manifest.bind (·.dependencies)).bind (·.get? key)).or
      (((manifest.bind (·.devDependencies)).bind (·.get? key)).or
        ((manifest.bind (·.peerDependencies)).bind (·.get? key)))

/-- **The summary of a package is exact**: `ofScan` comes to what `Summarizes` it. -/
theorem summarizes_ofScan (manifest : Option Manifest) (files : List ScannedFile) :
    Summarizes manifest files (ofScan manifest files) where
  counted := by
    rw [filesScanned_ofScan, failedFiles_ofScan, List.length_map, Nat.add_comm]
    exact (List.length_eq_length_filter_add ScannedFile.isFailed).symm
  failed := failedFiles_ofScan manifest files
  lexical := lexicalFiles_ofScan manifest files
  relative _ := collects_relativeImports.mem_ofScan manifest files
  flowRelative _ := collects_flowRelativeImports.mem_ofScan manifest files
  external _ := collects_externalDependencies.mem_ofScan manifest files
  packages _ := collects_packageNames.mem_ofScan manifest files
  roots := mem_externalDependencies_iff manifest files
  allowJs := by
    rw [compilerOptions, (flags_ofScan manifest files).1]
    simp only [List.any_eq_true]
  jsx := by
    rw [compilerOptions, (flags_ofScan manifest files).2]
    simp only [List.any_eq_true]
  strict := rfl
  declared key := by
    rw [ofScan_eq]
    show ((manifest.map Manifest.declared).getD .empty).get? key = _
    cases manifest with
    | none => rfl
    | some m => exact m.get?_declared key

/-! ## Relative imports -/

/-- No path of the `files` that could be read has a backslash in its directory, and no import of
them has one anywhere. -/
def Unslashed (files : List ScannedFile) : Prop :=
  ∀ file ∈ files, ∀ options, file.outcome = .ok options →
    '\\' ∉ (Specifier.directory file.path).toList ∧ ∀ request ∈ options.imports, '\\' ∉ request.toList

/-- Then the `relativeImports` are canonical. -/
theorem canonical_of_mem_relativeImports {manifest : Option Manifest} {files : List ScannedFile}
    (h : Unslashed files) {target : String}
    (htarget : target ∈ (ofScan manifest files).relativeImports.toList) : Path.Canonical target := by
  obtain ⟨file, hfile, options, hread, request, hrequest, -, rfl⟩ :=
    (collects_relativeImports.mem_ofScan manifest files).1 htarget
  obtain ⟨hdirectory, hrequests⟩ := h file hfile options hread
  exact Specifier.canonical_of_plain
    (Specifier.plain_of_directory hdirectory (hrequests request hrequest))

/-- **Relative imports are canonical.** Of any characters, what a `request` names is canonical if
and only if it names itself in a file at the root, called `top`, and what it names there always is;
it is canonical where neither the directory of the `file` nor the specifier holds a backslash. So
the `relativeImports` of files that are `Unslashed` are canonical, and two that differ are different
places. -/
theorem relativeImports_canonical {top : String} (htop : '/' ∉ top.toList) :
    (∀ file request,
      (Path.Canonical (Specifier.resolve file request) ↔
        Specifier.resolve top (Specifier.resolve file request) = Specifier.resolve file request) ∧
      Path.Canonical (Specifier.resolve top (Specifier.resolve file request)) ∧
      ('\\' ∉ (Specifier.directory file).toList → '\\' ∉ request.toList →
        Path.Canonical (Specifier.resolve file request))) ∧
    ∀ manifest files, Unslashed files →
      ∀ target ∈ (ofScan manifest files).relativeImports.toList, Path.Canonical target ∧
        ∀ other ∈ (ofScan manifest files).relativeImports.toList,
          Path.normalize (Path.segments target) = Path.normalize (Path.segments other) →
            target = other := by
  refine ⟨fun file request => ⟨?_, ?_, fun hfile hrequest => ?_⟩, ?_⟩
  · exact Specifier.canonical_iff_resolve htop (Specifier.no_backslash_resolve file request)
  · exact Specifier.canonical_resolve_top htop (Specifier.no_backslash_resolve file request)
  · exact Specifier.canonical_of_plain (Specifier.plain_of_directory hfile hrequest)
  · intro manifest files hfiles target htarget
    have hcanonical := canonical_of_mem_relativeImports hfiles htarget
    refine ⟨hcanonical, fun other hother hsame => ?_⟩
    rw [← Path.canonical_iff_normalize.1 hcanonical, hsame]
    exact Path.canonical_iff_normalize.1 (canonical_of_mem_relativeImports hfiles hother)

/-- A file in a directory, with two spellings of one import. -/
def twoSpellings : List ScannedFile :=
  [⟨"pkg/src/a.js", .ok { imports := ["./y", "../src/./x/../y"] }⟩]

/-- They are one relative import. -/
theorem relativeImports_canonical_twoSpellings :
    '/' ∉ "index.js".toList ∧ Unslashed twoSpellings ∧
    (ofScan none twoSpellings).relativeImports.toList = ["pkg/src/y"] ∧
    Path.Canonical "pkg/src/y" ∧ Specifier.resolve "index.js" "pkg/src/y" = "pkg/src/y" := by
  have htop : '/' ∉ "index.js".toList := by decide
  have hfiles : Unslashed twoSpellings := by
    intro file hfile options hread
    obtain rfl := List.mem_singleton.1 hfile
    obtain rfl := Except.ok.inj hread
    decide
  have himports : (ofScan none twoSpellings).relativeImports.toList = ["pkg/src/y"] := by
    decide +kernel
  obtain ⟨hresolve, hentries⟩ := relativeImports_canonical htop
  have hcanonical := (hentries none twoSpellings hfiles "pkg/src/y" (by simp [himports])).1
  have hone : Specifier.resolve "pkg/src/a.js" "./y" = "pkg/src/y" := by decide +kernel
  exact ⟨htop, hfiles, himports, hcanonical,
    hone ▸ (hresolve "pkg/src/a.js" "./y").1.1 (hone.symm ▸ hcanonical)⟩

/-- With a backslash two dots can stand at the front, and one place is two relative imports. -/
theorem not_relativeImports_canonical_of_backslash :
    Specifier.resolve "a.js" "./..\\x" = "../x" ∧
    ¬Path.Canonical (Specifier.resolve "a.js" "./..\\x") ∧
    Specifier.resolve "index.js" (Specifier.resolve "a.js" "./..\\x") ≠
      Specifier.resolve "a.js" "./..\\x" ∧
    (ofScan none [⟨"a.js", .ok { imports := ["./..\\x", "./x"] }⟩]).relativeImports.toList =
      ["../x", "x"] := by
  decide +kernel

end Usage

end FlowMigration
