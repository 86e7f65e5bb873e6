import FlowMigration.Config.Basic
import FlowMigration.Manifest
import FlowMigration.Source.Options
import FlowMigration.Specifier

/-! # What a package uses

The facts about the files of a package, put together.

* `Usage.ofScan`: the summary of scanned files.
* `Usage.compilerOptions`: the compiler options that follow from it.
-/

namespace FlowMigration

/-- The source file at `path` and what it says, or why it could not be read. -/
structure ScannedFile where
  path : String
  outcome : Except Failure SourceOptions

/-- What the files of a package use, put together by `addOptions` file by file. -/
structure Usage where
  declaredDependencies : Dict String := .empty
  /-- The roots of the modules that are imported from outside (`Specifier.moduleRoot`). -/
  externalDependencies : TextSet := Dict.empty
  /-- The packages that are imported (`Specifier.packageName`). -/
  packageNames : TextSet := Dict.empty
  /-- The paths of the repository that are imported (`Specifier.resolve`). -/
  relativeImports : TextSet := Dict.empty
  /-- Those of the `relativeImports` that a file for Flow imports. -/
  flowRelativeImports : TextSet := Dict.empty
  /-- Some file is not written for Flow. -/
  hasJs : Bool := false
  hasJsx : Bool := false
  filesScanned : Nat := 0
  failedFiles : List String := []
  /-- The files that could not be parsed, so that only `TextScan` was read of them. -/
  lexicalFiles : List String := []
deriving DecidableEq, Repr

namespace Usage

/-- Enters the import of `request` by the file at `path`. -/
def addImport (path : String) (isFlow : Bool) (usage : Usage) (request : String) : Usage :=
  match Specifier.classify path request with
  | .relative target =>
    { usage with
      relativeImports := usage.relativeImports.insert target
      flowRelativeImports :=
        if isFlow then usage.flowRelativeImports.insert target else usage.flowRelativeImports }
  | .external module =>
    { usage with
      externalDependencies := usage.externalDependencies.insert module
      packageNames := usage.packageNames.insert (Specifier.packageName request) }

/-- Enters what the file at `path` says, its `options`. -/
def addOptions (usage : Usage) (path : String) (options : SourceOptions) : Usage :=
  let counted := { usage with
    filesScanned := usage.filesScanned + 1
    lexicalFiles := if options.lexical then usage.lexicalFiles ++ [path] else usage.lexicalFiles
    hasJsx := usage.hasJsx || options.hasJsx
    hasJs := usage.hasJs || !options.isFlow }
  options.imports.foldl (addImport path options.isFlow) counted

/-- Enters the scanned `file`, whether it could be read or not. -/
def add (usage : Usage) (file : ScannedFile) : Usage :=
  match file.outcome with
  | .ok options => usage.addOptions file.path options
  | .error _ => { usage with failedFiles := usage.failedFiles ++ [file.path] }

/-- What the `scanned` files of a package with this `manifest` use. -/
def ofScan (manifest : Option Manifest) (scanned : List ScannedFile) : Usage :=
  scanned.foldl add { declaredDependencies := (manifest.map Manifest.declared).getD .empty }

/-- The compiler options of a package with this `usage`. -/
def compilerOptions (usage : Usage) : CompilerOptions where
  allowJs := if usage.hasJs then some true else none
  jsx := if usage.hasJsx then some "react" else none

/-! ## Log -/

/-- The message that tells how far a list has been worked off: `index` of `total`. -/
def progressEntry (index total : Nat) (text : String) : LogEntry :=
  .info ("[" ++ toString (index + 1) ++ "/" ++ toString total ++ "] " ++ text)

/-- What the log says about the scanned `file`, which is number `index` of `total`. -/
def fileLog (total : Nat) (file : ScannedFile) (index : Nat) : List LogEntry :=
  progressEntry index total file.path ::
    match file.outcome with
    | .error failure =>
      [.error ("Failed to read source file:\n  - " ++ file.path ++ "\n" ++ failure.message)]
    | .ok options =>
      if options.lexical then
        [.warn ("Could not parse " ++ file.path ++ ", imports were collected from its text")]
      else []

/-- What the log says when the `scanned` files are put together. -/
def log (scanned : List ScannedFile) : List LogEntry :=
  scanned.zipIdx.flatMap fun (file, index) => fileLog scanned.length file index

end Usage

end FlowMigration
