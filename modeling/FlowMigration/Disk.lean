import FlowMigration.Path

/-! # The disk

A file system as a value: a tree of directories, files and symbolic links, and a working
directory. Reading leaves it alone; writing gives a new one.

* `Disk.locate`: the place that a path leads to, all links followed.
* `Disk.read`, `Disk.write`, `Disk.rename`: the operations on files, with the errors that the
  operating system would give.
-/

namespace FlowMigration

/-- A file, a symbolic link or a directory. The `entries` of a `dir` stand in increasing order of
their names. -/
inductive Node where
  | file (content : ByteArray)
  | link (target : String)
  | dir (entries : List (String × Node))

instance : Inhabited Node := ⟨.dir []⟩

/-- Why an operation on a file failed. -/
inductive FileError where
  | notFound
  | notDirectory
  | isDirectory
  | notEmpty
  | tooManyLinks
  | nameTooLong
  | nulInName
  | notUtf8
deriving DecidableEq, Repr

/-- The operating system's words for an error. -/
def FileError.message : FileError → String
  | .notFound => "No such file or directory (os error 2)"
  | .notDirectory => "Not a directory (os error 20)"
  | .isDirectory => "Is a directory (os error 21)"
  | .notEmpty => "Directory not empty (os error 39)"
  | .tooManyLinks => "Too many levels of symbolic links (os error 40)"
  | .nameTooLong => "File name too long (os error 36)"
  | .nulInName => "file name contained an unexpected NUL byte"
  | .notUtf8 => "stream did not contain valid UTF-8"

/-! ## Directory entries -/

namespace Entries

def get? (name : String) : List (String × Node) → Option Node
  | [] => none
  | (n, node) :: rest => if n = name then some node else get? name rest

/-- Puts `node` under `name`, in the place of what had that name. -/
def insert (name : String) (node : Node) : List (String × Node) → List (String × Node)
  | [] => [(name, node)]
  | (n, old) :: rest =>
    if name < n then (name, node) :: (n, old) :: rest
    else if name = n then (name, node) :: rest
    else (n, old) :: insert name node rest

def erase (name : String) (entries : List (String × Node)) : List (String × Node) :=
  entries.filter fun e => e.1 ≠ name

end Entries

namespace Node

def isDir : Node → Bool
  | .dir _ => true
  | _ => false

def isFile : Node → Bool
  | .file _ => true
  | _ => false

/-- The node at a place below this one, as its names lead there through `dir` nodes; no `link` is
followed. -/
def get? : Node → List String → Option Node
  | node, [] => some node
  | .dir entries, name :: rest =>
    match Entries.get? name entries with
    | some child => child.get? rest
    | none => none
  | _, _ :: _ => none
termination_by _ place => place.length

/-- Puts `new` at a place whose directories exist; what stands elsewhere is left alone. -/
def put (new : Node) : Node → List String → Node
  | _, [] => new
  | .dir entries, name :: rest =>
    .dir (Entries.insert name (put new ((Entries.get? name entries).getD (.dir [])) rest) entries)
  | node, _ :: _ => node
termination_by _ place => place.length

/-- Takes away the entry of a `dir` that stands at a place. -/
def erase : Node → List String → Node
  | node, [] => node
  | .dir entries, [name] => .dir (Entries.erase name entries)
  | .dir entries, name :: next :: rest =>
    match Entries.get? name entries with
    | some child => .dir (Entries.insert name (erase child (next :: rest)) entries)
    | none => .dir entries
  | node, _ :: _ => node
termination_by _ place => place.length

end Node

/-- A tree of files, the `root`, and the place `workingDir` in it that relative paths start from. -/
structure Disk where
  root : Node := .dir []
  workingDir : List String := []

namespace Disk

/-- How many symbolic links `locate` may lead through. -/
def maxLinks : Nat := 40

/-- The longest name that `followWith` takes for an entry, in bytes. -/
def maxNameBytes : Nat := 255

/-- Where `path` begins, seen from the place `here`, and its `Path.pieces` that lead on from
there. -/
def start (here : List String) (path : String) : List String × List (List Char) :=
  match path.toList with
  | '/' :: rest => ([], Path.pieces rest)
  | cs => (here, Path.pieces cs)

/-- Follows `pieces` from the place `here`. At a symbolic link `jump` goes on, with the directory
and the target of the link and with what is left to follow behind it. -/
def followWith (root : Node)
    (jump : List String → String → List (List Char) → Except FileError (List String))
    (here : List String) : List (List Char) → Except FileError (List String)
  | [] => .ok here
  | piece :: rest =>
    match root.get? here with
    | some (.dir entries) =>
      if piece = [] ∨ piece = ['.'] then followWith root jump here rest
      else if piece = ['.', '.'] then followWith root jump here.dropLast rest
      else if (String.ofList piece).utf8ByteSize > maxNameBytes then .error .nameTooLong
      else
        match Entries.get? (String.ofList piece) entries with
        | none => .error .notFound
        | some (.link target) => jump here target rest
        | some _ => followWith root jump (here ++ [String.ofList piece]) rest
    | _ => .error .notDirectory

/-- Follows pieces from a place through at most `links` symbolic links, by `followWith`. -/
def follow (root : Node) : Nat → List String → List (List Char) → Except FileError (List String)
  | 0 => followWith root fun _ _ _ => .error .tooManyLinks
  | links + 1 => followWith root fun here target rest =>
    if target.isEmpty then .error .notFound
    else
      let (from_, more) := start here target
      follow root links from_ (more ++ rest)

/-- The place that `path` leads to, every symbolic link followed, `maxLinks` of them at most. -/
def locate (disk : Disk) (path : String) : Except FileError (List String) :=
  if path.toList.contains '\x00' then .error .nulInName
  else if path.isEmpty then .error .notFound
  else
    let (from_, todo) := start disk.workingDir path
    follow disk.root maxLinks from_ todo

/-- The absolute path of `place`, by which `locate` finds it again. -/
def pathOf (place : List String) : String :=
  "/" ++ Path.ofSegments place

/-- The absolute path, free of links and dots, of the place that `locate` finds. -/
def canonical? (disk : Disk) (path : String) : Option String :=
  (disk.locate path).toOption.map pathOf

/-- The node at the place that `path` leads to. -/
def node (disk : Disk) (path : String) : Except FileError Node :=
  match disk.locate path with
  | .ok place => (disk.root.get? place).elim (.error .notFound) .ok
  | .error e => .error e

def pathExists (disk : Disk) (path : String) : Bool :=
  (disk.locate path).isOk

def isDir (disk : Disk) (path : String) : Bool :=
  match disk.node path with
  | .ok (.dir _) => true
  | _ => false

/-- The `path` without its last piece, which is a name, and that name. A path that ends in a slash
or in dots has no last name. -/
def splitLast (path : String) : Option (String × String) :=
  let ps := Path.pieces path.toList
  match ps.getLast? with
  | some last =>
    if last = [] ∨ last = ['.'] ∨ last = ['.', '.'] then none
    else
      let parent := Path.unpieces ps.dropLast
      some (if ps.length = 1 then "." else if parent = [] then "/" else String.ofList parent,
        String.ofList last)
  | none => none

/-- The place of `path`, whose last piece is not followed when it is a link, unlike by `locate`. -/
def place (disk : Disk) (path : String) : Except FileError (List String) :=
  if path.toList.contains '\x00' then .error .nulInName
  else
    match splitLast path with
    | none => disk.locate path
    | some (parent, name) =>
      match disk.locate parent with
      | .ok here => .ok (here ++ [name])
      | .error e => .error e

/-- What stands at the `place` of `path`, a link being itself. -/
def entry (disk : Disk) (path : String) : Except FileError Node :=
  match disk.place path with
  | .ok here =>
    match disk.root.get? here with
    | some node => .ok node
    | none =>
      match disk.root.get? here.dropLast with
      | some (.dir _) =>
        if (here.getLast?.getD "").utf8ByteSize > maxNameBytes then .error .nameTooLong
        else .error .notFound
      | _ => .error .notDirectory
  | .error e => .error e

/-! ## Files -/

/-- The bytes of the file that `path` leads to. -/
def readBytes (disk : Disk) (path : String) : Except FileError ByteArray :=
  match disk.node path with
  | .ok (.file content) => .ok content
  | .ok _ => .error .isDirectory
  | .error e => .error e

/-- The text of the file that `path` leads to, if its `readBytes` are UTF-8. -/
def read (disk : Disk) (path : String) : Except FileError String :=
  match disk.readBytes path with
  | .ok content => (String.fromUTF8? content).elim (.error .notUtf8) .ok
  | .error e => .error e

/-- Writes to the place that `path` leads to, through at most `links` links, creating the file
when only its directory exists. -/
def writeThrough (disk : Disk) (content : ByteArray) : Nat → String → Except FileError Disk
  | links, path =>
    match disk.place path with
    | .error e => .error e
    | .ok here =>
      match disk.root.get? here with
      | some (.file _) => .ok { disk with root := (Node.file content).put disk.root here }
      | some (.dir _) => .error .isDirectory
      | some (.link target) =>
        match links with
        | 0 => .error .tooManyLinks
        | links + 1 =>
          if target.isEmpty then .error .notFound
          else disk.writeThrough content links (Path.join (pathOf here.dropLast) target)
      | none =>
        match disk.root.get? here.dropLast with
        | some (.dir _) =>
          if (here.getLast?.getD "").utf8ByteSize > maxNameBytes then .error .nameTooLong
          else .ok { disk with root := (Node.file content).put disk.root here }
        | _ => .error .notDirectory

/-- Writes `content` to the file at `path`, replacing what it holds or creating it. -/
def writeBytes (disk : Disk) (path : String) (content : ByteArray) : Except FileError Disk :=
  disk.writeThrough content maxLinks path

def write (disk : Disk) (path text : String) : Except FileError Disk :=
  disk.writeBytes path text.toUTF8

/-- Moves what stands at `source` to `target`, in the place of the file or link that stands there.
Links are moved and replaced themselves. -/
def rename (disk : Disk) (source target : String) : Except FileError Disk :=
  match disk.place source, disk.place target with
  | .error e, _ => .error e
  | _, .error e => .error e
  | .ok old, .ok new =>
    match disk.root.get? old with
    | none => .error .notFound
    | some moved =>
      match disk.root.get? new.dropLast, disk.root.get? new with
      | some (.dir _), some (.dir entries) =>
        if moved.isDir then
          if entries.isEmpty then .ok { disk with root := moved.put (disk.root.erase old) new }
          else .error .notEmpty
        else .error .isDirectory
      | some (.dir _), some _ =>
        if moved.isDir then .error .notDirectory
        else if old = new then .ok disk
        else .ok { disk with root := moved.put (disk.root.erase old) new }
      | some (.dir _), none => .ok { disk with root := moved.put (disk.root.erase old) new }
      | _, _ => .error .notDirectory

end Disk

end FlowMigration
