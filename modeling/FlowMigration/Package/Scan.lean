import FlowMigration.Package.Scope
import FlowMigration.Package.Usage
import FlowMigration.Session
import FlowMigration.Source.Detect

/-! # Scanning a package

What the files of a package say and what follows for its configuration.

* `ScannedFile.ofPath`: what one file says.
* `PackageScan.ofEntry`: everything about a package.
-/

namespace FlowMigration

/-- What the file at `path` below `root` says. -/
def ScannedFile.ofPath (disk : Disk) (root path : String) : ScannedFile :=
  let file := Path.join root path
  { path
    outcome :=
      match disk.read file with
      | .ok source => .ok (SourceOptions.detect source path)
      | .error error => .error (.unreadable file error) }

/-- A package that has been looked through: its `config`, and the `usage` of its `files`. -/
structure PackageScan where
  config : PackageConfig
  usage : Usage
  files : List ScannedFile

namespace PackageScan

/-- What the log says before files of `scope` are searched for. -/
def searchLog (scope : PackageScope) : LogEntry :=
  .info ("Searching for source files matching " ++ scope.sources ++
    "\nIgnoring files matching:\n" ++
    "\n".intercalate (scope.ignores.map ("  - " ++ ·)))

/-- What is put together from the scanned `files` of a package. -/
def ofFiles (scope : PackageScope) (manifest : Option Manifest) (files : List ScannedFile) :
    PackageScan :=
  let usage := Usage.ofScan manifest files
  ⟨⟨scope.sources, scope.ignores, usage.compilerOptions⟩, usage, files⟩

/-- Looks through a package of the repository at `root`. -/
def ofEntry (root : String) (entry : TopologyEntry) (sources : String) : Session PackageScan := do
  let scope := PackageScope.ofEntry entry sources
  Session.say [searchLog scope]
  let paths ← Session.look fun disk => scope.collect disk root entry
  Session.info ("found " ++ toString paths.length ++ " files")
  Session.info "detecting options (jsx, dependencies used in code)"
  let disk ← Session.disk
  let files := paths.map (ScannedFile.ofPath disk root)
  Session.info "combining usage info"
  Session.say (Usage.log files)
  pure (ofFiles scope entry.record.data? files)

end PackageScan

end FlowMigration
