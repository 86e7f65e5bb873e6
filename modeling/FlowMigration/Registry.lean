import FlowMigration.Manifest

/-! # Package names

The packages of a repository by the name they declare. The first manifest that declares a name
owns it; later ones are conflicts.

* `Registry.build`: the registry of some manifests.
* `Registry.get?`: the owner of a name.
-/

namespace FlowMigration

/-- A `name` that was declared once more, as `Registry.add` notes it. -/
structure NameConflict where
  name : String
  /-- The path of the manifest that owns the name. -/
  kept : String
  /-- The path of the manifest that is left out. -/
  rejected : String
deriving DecidableEq, Repr

structure Registry where
  owners : Dict ManifestRecord := {}
  /-- In the order in which the manifests were found. -/
  conflicts : List NameConflict := []

namespace Registry

def get? (registry : Registry) (name : String) : Option ManifestRecord :=
  registry.owners.get? name

def size (registry : Registry) : Nat := registry.owners.size

def isEmpty (registry : Registry) : Bool := registry.owners.isEmpty

/-- Enters the manifest of `record` under its `name?`, or else a `NameConflict` if the name has an
owner. -/
def add (registry : Registry) (record : ManifestRecord) : Registry :=
  match record.name? with
  | none => registry
  | some name =>
    match registry.get? name with
    | some owner =>
      { registry with conflicts := registry.conflicts ++ [⟨name, owner.path, record.path⟩] }
    | none => { registry with owners := registry.owners.insert name record }

def build (records : List ManifestRecord) : Registry := records.foldl add {}

/-- What the log says about the `conflicts` of a registry that was built. -/
def log (registry : Registry) : List LogEntry :=
  .info "Checking package names, to detect dependencies between packages" ::
    registry.conflicts.map fun c =>
      .error ("Duplicate package names \"" ++ c.name ++ "\", in files:\n  - " ++ c.rejected ++
        "\n  - " ++ c.kept)

end Registry

end FlowMigration
