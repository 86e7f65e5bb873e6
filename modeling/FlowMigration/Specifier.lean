import FlowMigration.Path

/-! # Module specifiers

What the text between the quotes of an import names.

* `Specifier.isRelative`: specifiers that begin with a dot point into the repository.
* `Specifier.resolve`: the repository path of a relative specifier.
* `Specifier.moduleRoot`, `Specifier.packageName`: the module, respectively the package, that any
  other specifier loads from.
* `Specifier.classify`: which of the two a specifier is.
-/

namespace FlowMigration

/-- Where a specifier points, as `classify` tells. -/
inductive ImportTarget where
  /-- A path of the repository. -/
  | relative (path : String)
  /-- The root name of an external module. -/
  | external (module : String)
deriving DecidableEq, Repr

namespace Specifier

def isRelative (request : String) : Bool :=
  request.toList.head? == some '.'

/-- The directory of `file`: its text before the last slash. -/
def directory (file : String) : String :=
  Path.ofSegments (Path.segments file).dropLast

/-- The repository path that `request` names in `file`. It is written behind the directory of
`file`, as a path from the root on, and cleaned; backslashes become slashes only then, and slashes
at the front are dropped. -/
def resolve (file request : String) : String :=
  let anchored := Path.clean ("/" ++ directory file ++ "/" ++ request)
  String.ofList ((Path.forwardSlashes anchored).toList.dropWhile (· = '/'))

/-- The first segment of `request`; for a scoped package that is the scope. -/
def moduleRoot (request : String) : String :=
  (Path.segments request).headD ""

/-- The package that a bare `request` loads from: its first segment, or the first two for a scoped
package. -/
def packageName (request : String) : String :=
  match Path.segments request with
  | scope :: package :: _ =>
    if scope.toList.head? = some '@' ∧ package ≠ "" then scope ++ "/" ++ package else scope
  | segs => segs.headD ""

def classify (file request : String) : ImportTarget :=
  if isRelative request then .relative (resolve file request)
  else .external (moduleRoot request)

end Specifier

end FlowMigration
