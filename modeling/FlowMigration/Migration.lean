import FlowMigration.Config.Store
import FlowMigration.Package.Scan
import FlowMigration.Report.Basic

/-! # Migrating a repository

The whole course of a migration: the configuration is opened, the packages are found, and each one
is looked through, handed over for conversion and recorded. The configuration is saved after every
package, so that an interrupted migration keeps what it has done.

* `Settings`: what a migration is asked to do.
* `Migration.plan`: the migration of a repository.
-/

namespace FlowMigration

/-- What `plan` is asked to do. -/
structure Settings where
  /-- The directory of the repository. -/
  root : Option String := none
  prettier : Bool := true
  recast : Bool := true
  /-- The glob of the sources of a package, `PackageScope.defaultSources` as a rule. -/
  sources : String := PackageScope.defaultSources
  threads : Option Nat := none
deriving DecidableEq, Repr

namespace Settings

/-- The name of what marks the root of a checkout, for `checkoutAbove`. -/
def checkoutMark : String := ".git"

/-- The nearest directory, from `place` upwards, that is the root of a checkout. -/
def checkoutAbove (disk : Disk) (place : List String) : Option String :=
  ((List.range (place.length + 1)).reverse.map fun depth => Disk.pathOf (place.take depth)).find?
    fun dir => disk.pathExists (Path.join dir checkoutMark)

/-- The directory that `settings` mean: the given `root` free of links and dots if it exists, or
else the checkout around the working directory. -/
def findRoot (settings : Settings) (disk : Disk) : Except Failure String :=
  match settings.root with
  | some root => .ok ((disk.canonical? root).getD root)
  | none => (checkoutAbove disk disk.workingDir).elim (.error .noCheckout) .ok

/-- The root of `settings` that have been made definite by `withRoot`. -/
def definiteRoot (settings : Settings) : Except Failure String :=
  settings.root.elim (.error .noRoot) .ok

/-- Makes the root of `settings` definite: the one that `findRoot` finds. -/
def withRoot (settings : Settings) : Session Settings := do
  let root ← Session.look settings.findRoot
  Session.info ("Using root directory: " ++ root)
  pure { settings with root := some root }

end Settings

namespace Migration

/-- The packages of the repository that a package imports: those of `names` whose owner in the
`registry` has another path than `path`. -/
def internalDependencies (registry : Registry) (path : String) (names : TextSet) : TextSet :=
  names.filter fun name => (registry.get? name).any (·.path ≠ path)

/-- The report of the package of `entry`, with the `usage` found when it was looked through. -/
def packageReport (registry : Registry) (entry : TopologyEntry) (usage : Usage) :
    PackageReport where
  key := entry.key
  manifestPath := entry.record.path
  name := entry.record.name?
  hasManifestErrors := entry.record.hasErrors
  excludes := entry.excludePaths
  usage := usage
  internalDependencies := internalDependencies registry entry.record.path usage.packageNames

/-- The collaborators of `c` that `config` lets take part. -/
def allowed (config : MigrationConfig) (c : Collaborators) : Collaborators :=
  if config.prettier then c else { c with format := none }

/-- How far a migration has come: its `store`, the reports of its `packages` and the `conversions`
so far. -/
structure Stage where
  store : ConfigStore
  packages : List PackageReport := []
  conversions : Option Tally := none

/-- Looks through the package of `entry`, hands its files over to the `collaborators` and records it
in the `stage`. -/
def migratePackage (root sources : String) (registry : Registry)
    (collaborators : Option Collaborators) (stage : Stage) (entry : TopologyEntry) :
    Session Stage := do
  let scan ← PackageScan.ofEntry root entry sources
  let tally ← match collaborators with
    | some c => Conversion.dispatch c root scan.config.compilerOptions scan.files
    | none => pure {}
  let store := stage.store.record entry.key scan.config
  store.save
  pure {
    store
    packages := stage.packages ++ [packageReport registry entry scan.usage]
    conversions := stage.conversions.map (·.append tally) }

/-- Migrates the packages of a list, the first of which has the number `index`. -/
def migratePackages (root sources : String) (registry : Registry)
    (collaborators : Option Collaborators) (total : Nat) :
    Nat → Stage → List TopologyEntry → Session Stage
  | _, stage, [] => pure stage
  | index, stage, entry :: rest => do
    Session.say [Usage.progressEntry index total ("package: " ++ entry.record.displayName)]
    let stage ← migratePackage root sources registry collaborators stage entry
    migratePackages root sources registry collaborators total (index + 1) stage rest

/-- What the log says about the packages of the `records` that were found. -/
def packagesLog (records : List ManifestRecord) (registry : Registry) : List LogEntry :=
  [.info ("Found " ++ toString records.length ++ " packages, " ++ toString registry.size ++
    " of them named")] ++
  if registry.isEmpty && !records.isEmpty then
    [.warn "No package.json declares a name, internal dependencies cannot be detected"]
  else []

/-- Drops the packages that are not `live` from the configuration, and saves it if there were
any. -/
def dropStale (store : ConfigStore) (live : List String) : Session ConfigStore := do
  let dropped := store.stale live
  Session.say (ConfigStore.retainLog dropped)
  let store := store.retain live
  if dropped.isEmpty then pure store
  else
    store.save
    pure store

/-- Migrates the repository at `root`. -/
def planAt (root : String) (settings : Settings) (collaborators : Option Collaborators) :
    Session Report := do
  let store ← ConfigStore.openAt root (.fresh settings.prettier settings.recast)
  Session.info "Searching for package.json files, to detect separate packages in repository"
  let records ← Session.look fun disk => ManifestRecord.load disk root
  Session.say (ManifestRecord.loadLog records)
  let registry := Registry.build records
  Session.say registry.log
  Session.say (packagesLog records registry)
  let topology := Topology.build records
  Session.say Topology.log
  let store ← dropStale store (topology.map (·.key))
  Session.info "Generating configuration for migration"
  let collaborators := collaborators.map (allowed store.config)
  let stage ← migratePackages root settings.sources registry collaborators topology.length 0
    { store, conversions := collaborators.map fun _ => {} } topology
  Session.info ("Repository migration plan complete for " ++ toString stage.packages.length ++
    " packages")
  pure {
    root
    configPath := store.path
    packages := stage.packages
    manifestsFailed := (records.filter (·.hasErrors)).length
    nameConflicts := registry.conflicts
    conversions := stage.conversions }

/-- Migrates the repository that `settings` mean: `planAt` the root that `withRoot` finds. -/
def plan (settings : Settings) (collaborators : Option Collaborators) : Session Report := do
  Session.info "Starting repository migration"
  let settings ← settings.withRoot
  let root ← Session.get settings.definiteRoot
  planAt root settings collaborators

end Migration

end FlowMigration
