import FlowMigration.Failure
import FlowMigration.Json.Typed

/-! # Package manifests

The part of a `package.json` that a migration looks at, and the manifests of a repository.

* `Manifest.parse`: reads the text of a manifest.
* `Manifest.declared`: all declared dependencies, merged.
* `ManifestRecord.load`: the manifests of a repository, in the order of a walk.
-/

namespace FlowMigration

structure Manifest where
  name : Option String := none
  dependencies : Option (Dict String) := none
  devDependencies : Option (Dict String) := none
  peerDependencies : Option (Dict String) := none
deriving DecidableEq, Repr

namespace Manifest

/-- The name of the file that a manifest is, `package.json`. -/
def fileName : String := "package.json"

/-- The directory that holds installed dependencies; `ManifestRecord.reaches` nothing in it. -/
def dependencyDir : String := "node_modules"

/-- The `peerDependencies`, `devDependencies` and `dependencies` in one map; of several entries for
a name the direct one counts before the dev one, and that before the peer one. -/
def declared (m : Manifest) : Dict String :=
  ((Dict.empty.extend (m.peerDependencies.getD .empty)).extend
    (m.devDependencies.getD .empty)).extend (m.dependencies.getD .empty)

/-! ## Reading -/

/-- The members of a manifest that have been read: a member that was `null` has been read too. -/
structure Fields where
  name : Option (Option String) := none
  dependencies : Option (Option (Dict String)) := none
  devDependencies : Option (Option (Dict String)) := none
  peerDependencies : Option (Option (Dict String)) := none

def Fields.manifest (f : Fields) : Manifest :=
  ⟨f.name.join, f.dependencies.join, f.devDependencies.join, f.peerDependencies.join⟩

/-- The fault of a member `key` that stands there twice; it is placed behind its key, blanks and a
closing brace after that included. -/
def duplicate {α : Type} (key : String) (rest : List Char) : Except JsonFault (α × List Char) :=
  let rest :=
    match Json.skipBlanks rest with
    | '\x7d' :: more => more
    | more => more
  .error (.here (.mismatch (.duplicateField key)) rest)

/-- Reads the value of the member `key`, which must not have been read `before`, and puts it into
the `Fields`. -/
def readMember {α : Type} (key : String) (before : Option α) (read : JsonReader α)
    (put : α → Fields) : JsonReader Fields := fun cs =>
  if before.isSome then duplicate key cs
  else do
    let ((), rest) ← Json.readColon cs
    let (v, rest) ← read rest
    .ok (put v, rest)

/-- Reads the member behind its `key`. Members with other keys are skipped. -/
def readField (key : String) (fields : Fields) : JsonReader Fields := fun cs =>
  if key = "name" then
    readMember key fields.name (Json.readOptional Json.readText)
      (fun v => { fields with name := some v }) cs
  else if key = "dependencies" then
    readMember key fields.dependencies (Json.readOptional Json.readTextDict)
      (fun v => { fields with dependencies := some v }) cs
  else if key = "devDependencies" then
    readMember key fields.devDependencies (Json.readOptional Json.readTextDict)
      (fun v => { fields with devDependencies := some v }) cs
  else if key = "peerDependencies" then
    readMember key fields.peerDependencies (Json.readOptional Json.readTextDict)
      (fun v => { fields with peerDependencies := some v }) cs
  else do
    let ((), rest) ← Json.readColon cs
    let ((), rest) ← Json.skipValue (2 * rest.length + 2) rest
    .ok (fields, rest)

/-- Reads the members of a manifest into `Fields`, and its closing brace. -/
def readMembers : Nat → Bool → Fields → JsonReader Fields
  | 0, _, _, cs => .error (.next .endInObject cs)
  | fuel + 1, first, fields, cs => do
    let (more, rest) ← Json.nextKey first cs
    if more then
      let (key, rest) ← Json.readString rest
      let (fields, rest) ← readField key fields rest
      readMembers fuel false fields rest
    else .ok (fields, rest.drop 1)

/-- Reads the next item of an array of members with `read`, if there is one. -/
def readItem {α : Type} (first : Bool) (read : JsonReader (Option α)) :
    JsonReader (Option (Option α)) := fun cs => do
  let (more, rest) ← Json.nextItem first cs
  if more then
    let (v, rest) ← read rest
    .ok (some v, rest)
  else .ok (none, rest)

/-- Reads the `Fields` of a manifest written as an array of its members in their order. -/
def readItems : JsonReader Fields := fun cs => do
  let (name, rest) ← readItem true (Json.readOptional Json.readText) cs
  if name.isNone then .ok ({}, rest)
  else
    let (dependencies, rest) ← readItem false (Json.readOptional Json.readTextDict) rest
    if dependencies.isNone then .ok ({ name }, rest)
    else
      let (devDependencies, rest) ← readItem false (Json.readOptional Json.readTextDict) rest
      if devDependencies.isNone then .ok ({ name, dependencies }, rest)
      else
        let (peerDependencies, rest) ← readItem false (Json.readOptional Json.readTextDict) rest
        .ok ({ name, dependencies, devDependencies, peerDependencies }, rest)

/-- Reads a manifest, an object (`readMembers`) or an array (`readItems`). -/
def read : JsonReader Manifest := fun cs =>
  match Json.skipBlanks cs with
  | [] => .error (.next .endInValue [])
  | '[' :: rest => do
    let (fields, rest) ← readItems rest
    let ((), rest) ← Json.endList rest
    .ok (fields.manifest, rest)
  | '\x7b' :: rest => do
    let (fields, rest) ← readMembers (rest.length + 1) true {} rest
    .ok (fields.manifest, rest)
  | rest => Json.unexpected "struct PackageManifest" rest

/-- Reads a `text` that is a manifest and nothing else. -/
def parse (text : String) : Except JsonFault Manifest := do
  let (manifest, rest) ← read text.toList
  let ((), _) ← Json.readEnd rest
  .ok manifest

/-- Reads the manifest that the file at the path `file` holds. -/
def ofFile (disk : Disk) (file : String) : Except Failure Manifest :=
  match disk.read file with
  | .error error => .error (.unreadable file error)
  | .ok text =>
    match parse text with
    | .error fault => .error (.unparsable file (fault.describe text))
    | .ok manifest => .ok manifest

end Manifest

/-! ## Manifests of a repository -/

/-- A manifest file of a repository. One that could not be read keeps its place, with the message of
the failure as its `manifest`. -/
structure ManifestRecord where
  path : String
  manifest : Except String Manifest

namespace ManifestRecord

def data? (r : ManifestRecord) : Option Manifest := r.manifest.toOption

def hasErrors (r : ManifestRecord) : Bool := r.data?.isNone

/-- The name that the manifest of `r` declares, if it is not empty. -/
def name? (r : ManifestRecord) : Option String :=
  (r.data?.bind Manifest.name).filter (· ≠ "")

/-- The names of the directories that lead to the manifest, from its `path`. -/
def dirSegments (r : ManifestRecord) : List String := (Path.segments r.path).dropLast

def displayName (r : ManifestRecord) : String :=
  match r.name? with
  | some name => name ++ " (" ++ r.path ++ ")"
  | none => r.path

/-- Whether the walk for manifests looks at the entry that `names` lead to: nothing named
`Manifest.dependencyDir` is. -/
def reaches (names : List String) : Bool :=
  names.getLast? != some Manifest.dependencyDir

/-- The name of the entry that `names` lead to from `start`. -/
def lastName? (start : String) (names : List String) : Option String :=
  match names.getLast? with
  | some name => some name
  | none =>
    match (Path.components start).getLast? with
    | some (.name name) => some name
    | _ => none

/-- The names that lead to the manifests below `root`, in the order of a walk. -/
def discover (disk : Disk) (root : String) : Except Failure (List (List String)) :=
  match Walk.entries disk (fun names _ => reaches names) root with
  | .error error => .error (.walk root error)
  | .ok entries =>
    .ok ((entries.filter fun e =>
      e.node.isFile && lastName? root e.names == some Manifest.fileName).map (·.names))

/-- Reads the manifest that `names` lead to from `root`. -/
def ofNames (disk : Disk) (root : String) (names : List String) : ManifestRecord :=
  let file := Path.joinAll root names
  { path := Path.relativeUnix root file
    manifest := (Manifest.ofFile disk file).mapError Failure.message }

/-- The manifests below `root`, in the order of a walk. -/
def load (disk : Disk) (root : String) : Except Failure (List ManifestRecord) :=
  match discover disk root with
  | .error failure => .error failure
  | .ok found => .ok (found.map (ofNames disk root))

/-- The message about a manifest that could not be read, none for one that could. -/
def faultLog (r : ManifestRecord) : List LogEntry :=
  match r.manifest with
  | .ok _ => []
  | .error message =>
    [.error ("Error loading " ++ Manifest.fileName ++ ":\n  - " ++ r.path ++ "\n" ++ message)]

/-- What the log says about loaded `records`. -/
def loadLog (records : List ManifestRecord) : List LogEntry :=
  [.info (toString records.length ++ " packages found")] ++ records.flatMap faultLog ++
    [.info (toString (records.filter (!·.hasErrors)).length ++ " successfully loaded")]

end ManifestRecord

end FlowMigration
