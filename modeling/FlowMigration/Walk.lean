import FlowMigration.Ignore.Layer

/-! # Walking a directory

The entries below a directory that no ignore file rules out, in the order of their names, a
directory before what it holds. Symbolic links are entries and are not followed, except where the
walk starts.

* `Walk.entries`: the walk itself.
* `Walk.below`: the part of a walk below one directory.
-/

namespace FlowMigration

/-- Why `Walk.entries` failed. -/
inductive WalkError where
  | file (path : String) (error : FileError)
  /-- Ignore files above the start have `faults`. -/
  | ignoreFiles (faults : List IgnoreFault)
deriving DecidableEq, Repr

def WalkError.message : WalkError → String
  | .file path error =>
    path ++ ": IO error for operation on " ++ path ++ ": " ++ error.message
  | .ignoreFiles faults => "\n".intercalate (faults.map IgnoreFault.message)

/-- An entry of a walk: the `names` that lead to it from the start, and the `node` that stands
there. -/
structure WalkEntry where
  names : List String
  node : Node

namespace Walk

mutual

/-- The walk of some entries of the directory that `names` lead to and that stands at `place`: all
of them but those that the layers rule out or `keep` refuses. -/
def below (disk : Disk) (keep : List String → Node → Bool) (layers : List IgnoreLayer)
    (place names : List String) : List (String × Node) → List WalkEntry
  | [] => []
  | entry :: rest =>
    belowEntry disk keep layers place names entry ++ below disk keep layers place names rest

/-- The part of `below` that is about one entry of the directory. -/
def belowEntry (disk : Disk) (keep : List String → Node → Bool) (layers : List IgnoreLayer)
    (place names : List String) : String × Node → List WalkEntry
  | (name, .dir inside) =>
    if IgnoreLayer.decide layers name true = .ignored ∨
        keep (names ++ [name]) (.dir inside) = false then []
    else
      let layer := (IgnoreLayer.ofDirectory disk (Disk.pathOf (place ++ [name])) []).1
      ⟨names ++ [name], .dir inside⟩ ::
        below disk keep (layer :: layers.map (·.enter name)) (place ++ [name]) (names ++ [name])
          inside
  | (name, node) =>
    if IgnoreLayer.decide layers name false = .ignored ∨ keep (names ++ [name]) node = false then []
    else [⟨names ++ [name], node⟩]

end

/-- The layers of the directories above `place`, the nearest first, and the faults in them, those
of the outermost directory first. -/
def layersAbove (disk : Disk) (place : List String) : List IgnoreLayer × List IgnoreFault :=
  (List.range place.length).foldl (fun (layers, faults) depth =>
    let (layer, more) :=
      IgnoreLayer.ofDirectory disk (Disk.pathOf (place.take depth)) (place.drop depth)
    (layer :: layers, faults ++ more)) ([], [])

/-- The walk from `start` on: its own entry first, which nothing rules out. -/
def entries (disk : Disk) (keep : List String → Node → Bool) (start : String) :
    Except WalkError (List WalkEntry) :=
  match disk.entry start with
  | .error error => .error (.file start error)
  | .ok node =>
    match disk.locate start with
    | .error error => .error (.file start error)
    | .ok place =>
      match disk.root.get? place with
      | some (.dir inside) =>
        let (above, faults) := layersAbove disk place
        if faults.isEmpty then
          let layer := (IgnoreLayer.ofDirectory disk start []).1
          .ok (⟨[], node⟩ :: below disk keep (layer :: above) place [] inside)
        else .error (.ignoreFiles faults)
      | _ => .ok [⟨[], node⟩]

end Walk

end FlowMigration
