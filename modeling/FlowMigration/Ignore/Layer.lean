import FlowMigration.Disk
import FlowMigration.Ignore.Rule

/-! # Ignore files

The ignore files of a directory, as a layer of rules that is looked at for every path below it.

* `IgnoreLayer.ofDirectory`: reads the ignore files of a directory.
* `IgnoreLayer.decide`: the verdict of layers, the nearest directory first.
-/

namespace FlowMigration

/-- Something wrong with an ignore file, as `readFile` finds it. -/
inductive IgnoreFault where
  | badPattern (file : String) (line : Nat) (bad : BadPattern)
  | unreadable (file : String) (line : Nat) (error : FileError)
deriving DecidableEq, Repr

namespace IgnoreFault

def message : IgnoreFault → String
  | .badPattern file line bad => file ++ ": line " ++ toString line ++ ": " ++ bad.message
  | .unreadable file line error => file ++ ": line " ++ toString line ++ ": " ++ error.message

def isUnreadable : IgnoreFault → Bool
  | .unreadable .. => true
  | .badPattern .. => false

end IgnoreFault

/-- The rules of one directory, by the file they stand in, and the names `below` it that lead to the
one being walked. -/
structure IgnoreLayer where
  plain : List IgnoreRule
  git : List IgnoreRule
  exclude : List IgnoreRule
  below : List String

namespace IgnoreLayer

/-! ## Reading -/

/-- The lines of a file, without the ends of lines, which `chomp` still may shorten. -/
def splitLines : List UInt8 → List (List UInt8)
  | [] => []
  | b :: rest =>
    if b = 10 then [] :: splitLines rest
    else
      match splitLines rest with
      | [] => [[b]]
      | line :: more => (b :: line) :: more

/-- A line of a file without a carriage return at its end. `complete` tells a line that is ended
from the rest of the file. -/
def chomp (line : List UInt8) : List UInt8 :=
  if line.getLast? = some 13 then line.dropLast else line

/-- Whether the last line of `content` is ended. -/
def endsLine (content : List UInt8) : Bool := content.getLast? == some 10

/-- The `line` without the byte order mark that it may begin with, if it is the first one by its
`number`. -/
def dropMark (number : Nat) (line : String) : String :=
  if number = 1 then String.ofList (line.toList.dropWhile (· = '\ufeff')) else line

/-- Reads the lines of the ignore file `file`, counted from `number` on, up to the first that is no
text. Lines whose pattern cannot be read are left out. -/
def readLines (file : String) (number : Nat) :
    List (List UInt8) → List IgnoreRule × List IgnoreFault
  | [] => ([], [])
  | line :: more =>
    match String.fromUTF8? ⟨line.toArray⟩ with
    | none => ([], [.unreadable file number .notUtf8])
    | some text =>
      let (rules, faults) := readLines file (number + 1) more
      match IgnoreRule.parse true (dropMark number text) with
      | .ok (some rule) => (rule :: rules, faults)
      | .ok none => (rules, faults)
      | .error bad => (rules, .badPattern file number bad :: faults)

/-- The lines of the `content` of a file: only an ended line loses a carriage return. -/
def linesOf (content : List UInt8) : List (List UInt8) :=
  let lines := splitLines content
  if endsLine content then lines.map chomp
  else lines.dropLast.map chomp ++ (lines.getLast?.toList)

/-- The rules of the ignore file at the path `file`. A file that is not there holds none, and a
fault in reading does not count if it is the only one. -/
def readFile (disk : Disk) (file : String) : List IgnoreRule × List IgnoreFault :=
  match disk.readBytes file with
  | .error _ => ([], [])
  | .ok content =>
    let (rules, faults) := readLines file 1 (linesOf content.toList)
    match faults with
    | [fault] => (rules, if fault.isUnreadable then [] else [fault])
    | faults => (rules, faults)

/-- The layer of the directory at `place`, which is reached by the path `dir`. -/
def ofDirectory (disk : Disk) (dir : String) (below : List String) :
    IgnoreLayer × List IgnoreFault :=
  let (plain, faults₁) := readFile disk (Path.join dir ".ignore")
  let (git, faults₂) := readFile disk (Path.join dir ".gitignore")
  let (exclude, faults₃) := readFile disk (Path.join dir ".git/info/exclude")
  (⟨plain, git, exclude, below⟩, faults₁ ++ faults₂ ++ faults₃)

/-! ## Deciding -/

/-- The `layer` seen from the directory `name` inside. -/
def enter (layer : IgnoreLayer) (name : String) : IgnoreLayer :=
  { layer with below := layer.below ++ [name] }

/-- What the rules of one `kind` say in the nearest of the `layers` that says something. -/
def decideBy (kind : IgnoreLayer → List IgnoreRule) (layers : List IgnoreLayer) (name : String)
    (isDir : Bool) : Verdict :=
  layers.foldr (fun layer rest =>
    (IgnoreRule.decide (kind layer) (Path.ofSegments (layer.below ++ [name])) isDir).orElse rest)
    .undecided

/-- What the layers, the nearest first, say about the entry `name` of the directory being walked:
rules for every tool come before those of version control. -/
def decide (layers : List IgnoreLayer) (name : String) (isDir : Bool) : Verdict :=
  ((decideBy plain layers name isDir).orElse (decideBy git layers name isDir)).orElse
    (decideBy exclude layers name isDir)

end IgnoreLayer

end FlowMigration
