import FlowMigration.Conversion
import FlowMigration.Registry
import FlowMigration.Topology.Entry

/-! # The report of a migration

What a migration has found out, package by package.
-/

namespace FlowMigration

structure PackageReport where
  key : String
  manifestPath : String
  name : Option String := none
  hasManifestErrors : Bool := false
  /-- The directories of the packages inside, as in its `TopologyEntry`. -/
  excludes : List String := []
  usage : Usage := {}
  /-- The packages of the same repository that are imported (`Migration.internalDependencies`). -/
  internalDependencies : TextSet := {}

structure Report where
  root : String
  configPath : String
  packages : List PackageReport
  /-- How many manifests could not be read. -/
  manifestsFailed : Nat := 0
  nameConflicts : List NameConflict := []
  /-- What became of the files, if they were handed over to `Collaborators`. -/
  conversions : Option Tally := none

namespace Report

def filesAnalyzed (report : Report) : Nat :=
  report.packages.foldl (fun count package => count + package.usage.filesScanned) 0

def filesFailed (report : Report) : Nat :=
  report.packages.foldl (fun count package => count + package.usage.failedFiles.length) 0

end Report

end FlowMigration
