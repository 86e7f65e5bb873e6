import FlowMigration.Config.Basic
import FlowMigration.Json.Reader
import FlowMigration.Session

/-! # The configuration file

The configuration of a migration and the file that keeps it.

* `ConfigStore.openAt`: the configuration of a repository, made up and saved when there is none.
* `ConfigStore.retain`, `ConfigStore.record`: changes to the packages.
* `ConfigStore.save`: writes the file, through another file beside it.
-/

namespace FlowMigration

/-- A configuration and the `path` of its file. -/
structure ConfigStore where
  path : String
  config : MigrationConfig

namespace ConfigStore

/-- The name of the file that `openAt` looks for and `save` writes. -/
def fileName : String := "flow-ts-config.json"

/-- The file that the configuration of `store` is written to before it takes the place of the old
one. -/
def temporaryPath (store : ConfigStore) : String := store.path ++ ".tmp"

/-- The text that is kept of `store`. -/
def text (store : ConfigStore) : String := store.config.toJson.pretty

/-- Writes the `text` of `store` to its file, by way of its `temporaryPath`. -/
def save (store : ConfigStore) : Session Unit := do
  Session.change (·.write store.temporaryPath store.text) (.unwritable store.temporaryPath)
  Session.change (·.rename store.temporaryPath store.path) (.irreplaceable store.path)

/-- Reads a configuration from the `text` of a file; what it leaves open is as in `defaults`. -/
def parse (defaults : MigrationConfig) (text : String) : Except ConfigFault MigrationConfig :=
  match Json.parse text with
  | .error fault => .error (.malformed (fault.describe text))
  | .ok existing => defaults.mergedOver existing

/-- Reads the configuration that the file at `path` holds. -/
def load (defaults : MigrationConfig) (path : String) (disk : Disk) : Except Failure ConfigStore :=
  match disk.read path with
  | .error error => .error (.unreadable path error)
  | .ok text =>
    match parse defaults text with
    | .error fault => .error (.unloadable path fault)
    | .ok config => .ok ⟨path, config⟩

/-- The configuration of the repository at `root`. Where there is no file, the `defaults` are
saved. -/
def openAt (root : String) (defaults : MigrationConfig) : Session ConfigStore := do
  let path := Path.join root fileName
  let disk ← Session.disk
  if disk.pathExists path then
    let store ← Session.look (load defaults path)
    Session.info ("Config was loaded from " ++ path)
    pure store
  else
    Session.info ("No configuration file found, generating " ++ path)
    let store : ConfigStore := ⟨path, defaults⟩
    store.save
    pure store

/-- The keys of the packages of `store` that are not `live`. -/
def stale (store : ConfigStore) (live : List String) : List String :=
  store.config.packages.keys.filter fun key => !live.contains key

/-- The `store` with the `live` packages only. -/
def retain (store : ConfigStore) (live : List String) : ConfigStore :=
  { store with config := { store.config with
      packages := store.config.packages.filter fun key => live.contains key } }

/-- What the log says about packages that are `dropped` by `retain`. -/
def retainLog (dropped : List String) : List LogEntry :=
  dropped.map fun key =>
    .info ("Removing configuration of package '" ++ key ++ "', its package.json is gone")

/-- The `store` with the configuration of one `package` put in under `key`. -/
def record (store : ConfigStore) (key : String) (package : PackageConfig) : ConfigStore :=
  { store with config := { store.config with
      packages := store.config.packages.insert key package } }

end ConfigStore

end FlowMigration
