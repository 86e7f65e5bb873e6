/-! # Paths

Slash-separated paths as text. A path is read as a list of components: doubled slashes, a slash at
the end and single dots between names do not count.

* `Path.components`: the components of a path.
* `Path.relativeTo?`: what is left of a path below another one.
* `Path.clean`: a path whose `.` and `..` have been worked off.
-/

namespace FlowMigration

/-- One component of a path, as `Path.components` finds them. -/
inductive Component where
  /-- The slash that an absolute path begins with. -/
  | root
  /-- The dot that a relative path may begin with. -/
  | here
  /-- Two dots: the directory above. -/
  | up
  | name (text : String)
deriving DecidableEq, Repr

/-- A component as it is written in a path. -/
def Component.text : Component → String
  | .root => "/"
  | .here => "."
  | .up => ".."
  | .name text => text

namespace Path

/-! ## Splitting and joining -/

/-- The pieces of a text between its slashes; there is always at least one (`pieces_ne_nil`). -/
def pieces : List Char → List (List Char)
  | [] => [[]]
  | c :: rest =>
    if c = '/' then [] :: pieces rest
    else
      match pieces rest with
      | [] => [[c]]
      | piece :: more => (c :: piece) :: more

/-- Pieces written one after the other with slashes between them, which `pieces` takes apart
again. -/
def unpieces : List (List Char) → List Char
  | [] => []
  | [piece] => piece
  | piece :: more => piece ++ '/' :: unpieces more

/-- The `pieces` of `path` as texts, empty ones included. -/
def segments (path : String) : List String :=
  (pieces path.toList).map String.ofList

/-- The path of which `segs` are the `segments`. -/
def ofSegments (segs : List String) : String :=
  String.ofList (unpieces (segs.map String.toList))

/-- What `piece` stands for after the beginning of a path; the empty piece and a dot stand for
nothing. -/
def component? (piece : List Char) : Option Component :=
  if piece = [] ∨ piece = ['.'] then none
  else if piece = ['.', '.'] then some .up
  else some (.name (String.ofList piece))

/-- The `components` of a path given by its characters. -/
def componentsOf : List Char → List Component
  | '/' :: rest => .root :: (pieces rest).filterMap component?
  | cs =>
    match pieces cs with
    | ['.'] :: more => .here :: more.filterMap component?
    | all => all.filterMap component?

/-- The components of `path`: what its pieces stand for, and the slash or dot that it begins
with. -/
def components (path : String) : List Component :=
  componentsOf path.toList

def isAbsolute (path : String) : Bool :=
  path.toList.head? == some '/'

/-- `rel` below `base`; an absolute `rel` stands for itself. -/
def join (base rel : String) : String :=
  if isAbsolute rel || base.isEmpty then rel
  else if base.toList.getLast? = some '/' then base ++ rel
  else base ++ "/" ++ rel

/-- The path that `names` lead to from `base`. -/
def joinAll (base : String) (names : List String) : String := names.foldl join base

/-! ## Relative paths -/

/-- Drops the pieces at the end that stand for nothing (`component?`). -/
def trimEnd (ps : List (List Char)) : List (List Char) :=
  (ps.reverse.dropWhile (fun p => (component? p).isNone)).reverse

/-- Drops the pieces at either end that stand for nothing (`component?`). -/
def trimPieces (ps : List (List Char)) : List (List Char) :=
  trimEnd (ps.dropWhile (fun p => (component? p).isNone))

/-- Takes the components `want` off the front of the pieces, as long as they agree. -/
def dropComponents : List Component → List (List Char) → Option (List (List Char))
  | [], ps => some ps
  | _ :: _, [] => none
  | w :: ws, p :: ps =>
    match component? p with
    | none => dropComponents (w :: ws) ps
    | some c => if c = w then dropComponents ws ps else none

/-- The text of `path` below `root`: the components of `root` are taken off component by component,
so `/a/./b` is `b` below `/a`. Nothing if `root` does not lead to `path`. -/
def relativeTo? (root path : String) : Option String :=
  match componentsOf root.toList, path.toList with
  | [], '/' :: rest => some (String.ofList ('/' :: unpieces (trimEnd (pieces rest))))
  | [], cs =>
    match pieces cs with
    | ['.'] :: more => some (String.ofList (unpieces (['.'] :: trimEnd more)))
    | all => some (String.ofList (unpieces (trimEnd all)))
  | .root :: want, '/' :: rest =>
    (dropComponents want (pieces rest)).map fun ps => String.ofList (unpieces (trimPieces ps))
  | .here :: want, cs =>
    match pieces cs with
    | ['.'] :: more =>
      (dropComponents want more).map fun ps => String.ofList (unpieces (trimPieces ps))
    | _ => none
  | want, cs =>
    match cs, pieces cs with
    | '/' :: _, _ => none
    | _, ['.'] :: _ => none
    | _, all => (dropComponents want all).map fun ps => String.ofList (unpieces (trimPieces ps))

/-- The `path` with its backslashes written as slashes. -/
def forwardSlashes (path : String) : String :=
  path.map fun c => if c = '\\' then '/' else c

/-- `path` relative to `root`, with slashes only; the path as it is when it is not below `root`. -/
def relativeUnix (root path : String) : String :=
  forwardSlashes ((relativeTo? root path).getD path)

/-! ## Working off dots -/

/-- One step of `clean`: a dot leaves what is done, and two dots take a name back. At the root they
leave it too, and where no name is left of a relative path they are kept. -/
def cleanStep (done : List Component) : Component → List Component
  | .here => done
  | .up =>
    match done.getLast? with
    | some .root => done
    | some (.name _) => done.dropLast
    | _ => done ++ [.up]
  | component => done ++ [component]

/-- The `path` with its dots worked off from left to right by `cleanStep`; a path of which nothing
is left is a dot. -/
def clean (path : String) : String :=
  match (components path).foldl cleanStep [] with
  | [] => "."
  | done => joinAll "" (done.map Component.text)

end Path

end FlowMigration
