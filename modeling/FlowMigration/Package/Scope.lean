import FlowMigration.Config.Basic
import FlowMigration.Topology.Entry

/-! # The scope of a package

Which files of a repository belong to a package.

* `PackageScope.ofEntry`: the globs of a package.
* `PackageScope.matcher`: the globs, ready to decide about paths.
* `PackageScope.collect`: the files themselves.
-/

namespace FlowMigration

/-- The globs of a package: its `sources`, which it takes in, and its `ignores`, which it leaves
out. -/
structure PackageScope where
  sources : String
  ignores : List String
deriving DecidableEq, Repr

namespace PackageScope

/-- The endings of the files that may still be written for Flow, which `defaultSources` lists. -/
def sourceExtensions : List String := ["js", "mjs", "jsx", "js.flow"]

/-- The glob that is put behind the directory of a package. -/
def defaultSources : String := "**/*.\x7bjs,mjs,jsx,js.flow\x7d"

/-- What no package takes in: `Manifest.dependencyDir`, wherever it stands. -/
def defaultIgnores : List String := ["**/node_modules/**"]

/-- The globs of the package of `entry`: its `sources` below its own directory, and without what is
inside the packages that it encloses. -/
def ofEntry (entry : TopologyEntry) (sources : String) : PackageScope where
  sources := if entry.isRoot then sources else entry.dirPath ++ "/" ++ sources
  ignores := defaultIgnores ++ entry.excludePaths.map (· ++ "/**")

/-! ## Matching -/

/-- The rules that the globs of `scope` stand for. A path that is ignored by them in the end is in
the scope: what is left out is written as a negated rule. -/
def rules (scope : PackageScope) : Except Failure (List IgnoreRule) := do
  let first ← (IgnoreRule.parse false scope.sources).mapError (.sourceGlob scope.sources)
  let others ← scope.ignores.mapM fun ignore =>
    (IgnoreRule.parse false ("!" ++ ignore)).mapError (.ignoreGlob ignore)
  .ok ((first :: others).filterMap id)

/-- The text of a path below `root`. -/
def belowRoot (root path : String) : String :=
  let rest := path.toList
  if root.toList.isPrefixOf rest then
    match rest.drop root.length with
    | '/' :: more => String.ofList more
    | more => String.ofList more
  else path

/-- Whether rules take in the file at `path`. -/
def takesIn (rules : List IgnoreRule) (root path : String) : Bool :=
  IgnoreRule.decide rules (belowRoot root path) false = .ignored

/-! ## Collecting -/

/-- The directory of a package in the repository at `root`. -/
def directory (root : String) (entry : TopologyEntry) : String :=
  if entry.isRoot then root else Path.join root entry.dirPath

/-- Whether the walk for sources that begins at `start` looks at an entry: it enters neither
`Manifest.dependencyDir` nor a directory in `nested`. -/
def reaches (start : String) (nested : List (List Component)) (names : List String) (node : Node) :
    Bool :=
  !(node.isDir && (names.getLast? == some Manifest.dependencyDir ||
    nested.contains (Path.components (Path.joinAll start names))))

/-- The files of the package of `entry` below `root`, in increasing order of their paths: those of a
walk from its `directory` that `takesIn` accepts. -/
def collect (scope : PackageScope) (disk : Disk) (root : String) (entry : TopologyEntry) :
    Except Failure (List String) := do
  let rules ← scope.rules
  let start := directory root entry
  let nested := entry.excludePaths.map fun path => Path.components (Path.join root path)
  let entries ← (Walk.entries disk (reaches start nested) start).mapError (.walk start)
  let files := (entries.filter (·.node.isFile)).map fun e => Path.joinAll start e.names
  .ok (((files.filter (takesIn rules root)).map (Path.relativeUnix root)).mergeSort (· ≤ ·))

end PackageScope

end FlowMigration
