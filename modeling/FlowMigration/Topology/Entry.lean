import FlowMigration.Manifest
import FlowMigration.Topology.Folder

/-! # Topology

Which package of a repository lies inside which. Every package comes with the directories of all
packages inside it, which are not its own.

* `TopologyEntry`: a package at its place.
* `Topology.build`: the packages of a repository, those inside before those around them.
-/

namespace FlowMigration

/-- A package at its place in the repository: the directory that its `parts` lead to. -/
structure TopologyEntry where
  record : ManifestRecord
  /-- The names of the directories that lead to the package. -/
  parts : List String
  /-- The `parts` of every package inside it. -/
  excludes : List (List String)

namespace TopologyEntry

def dirPath (e : TopologyEntry) : String := Path.ofSegments e.parts

def excludePaths (e : TopologyEntry) : List String := e.excludes.map Path.ofSegments

def isRoot (e : TopologyEntry) : Bool := e.parts.isEmpty

/-- The entry `e` seen from the folder around it, in which its folder is called `name`. -/
def within (name : String) (e : TopologyEntry) : TopologyEntry :=
  { e with parts := name :: e.parts, excludes := e.excludes.map (name :: ·) }

/-- The key of the package at the root of a repository. -/
def rootKey : String := "."

/-- The key of the package of `e` in the configuration: its directory, or `rootKey`. -/
def key (e : TopologyEntry) : String := if e.isRoot then rootKey else e.dirPath

end TopologyEntry

namespace Topology

/-- The packages in the folder `id`, seen from it, the folder's own one last. The folders inside
have greater numbers; `fuel` bounds how deep they go. -/
def collect (arena : FolderArena) (records : List ManifestRecord) : Nat → Nat → List TopologyEntry
  | 0, _ => []
  | fuel + 1, id =>
    let f := arena.folder id
    let inside := f.children.flatMap fun child =>
      (collect arena records fuel child).map (·.within (arena.folder child).name)
    match f.mark.bind (records[·]?) with
    | some record => inside ++ [⟨record, [], inside.map (·.parts)⟩]
    | none => inside

/-- The packages of the manifests `records`, those inside before those around them. Of several
manifests in one directory the last one counts. -/
def build (records : List ManifestRecord) : List TopologyEntry :=
  let arena := FolderArena.ofPaths (records.map (·.dirSegments))
  collect arena records arena.size FolderArena.root

/-- What the log says when a topology is built. -/
def log : List LogEntry :=
  [.info "Detecting nested packages, to be converted separately"]

end Topology

end FlowMigration
