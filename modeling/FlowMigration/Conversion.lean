import FlowMigration.Package.Usage
import FlowMigration.Session

/-! # Handing files over for conversion

Every file that was scanned goes to a converter, then to a formatter if there is one, and its text
is delivered.

* `Conversion.ofFile`: what happens to one file.
* `Conversion.dispatch`: all files of a package.
* `Tally`: which of them went through.
-/

namespace FlowMigration

/-- Those that convert files. An answer is a function of what is asked, and what is asked names the
file by its `path`. A run asks about a path once, as long as no two files have the same one
(`Migration.Trail.Of.nodup_readable`), so a collaborator that keeps count, or that answers
differently from one package to the next, gives in any one run the answers of some `Collaborators`:
those that answer each `path` as it did. What holds for all `Collaborators` holds for every pattern
of answers and failures over the distinct files of a run. -/
structure Collaborators where
  /-- The converted text of a file, from its path, its text and what is known about it, the
  `SourceOptions` of the file and the `CompilerOptions` of its package. -/
  convert : String → String → SourceOptions → CompilerOptions → Except Failure String
  /-- The formatted text of a file, from its path and its text. -/
  format : Option (String → String → Except Failure String) := none
  /-- Takes the text of a file. -/
  deliver : String → String → Except Failure Unit

/-- The paths of the files that went through, `converted`, and of those that did not, `failed`. -/
structure Tally where
  converted : List String := []
  failed : List String := []
deriving DecidableEq, Repr

/-- The files of the tallies `first` and `second`. -/
def Tally.append (first second : Tally) : Tally :=
  ⟨first.converted ++ second.converted, first.failed ++ second.failed⟩

/-- What happened to the file at `path`. -/
structure Conversion where
  path : String
  /-- The text that was delivered, if it came to that. -/
  delivered : Option String
  outcome : Except Failure Unit

namespace Conversion

/-- The text of the file at `path` that is to be delivered: read below `root`, converted, and
formatted if `c` has a formatter. -/
def textOf (c : Collaborators) (disk : Disk) (root : String) (compiler : CompilerOptions)
    (path : String) (options : SourceOptions) : Except Failure String := do
  let file := Path.join root path
  let source ← (disk.read file).mapError (.unreadable file)
  let converted ← c.convert path source options compiler
  match c.format with
  | some format => format path converted
  | none => .ok converted

/-- Converts the file at `path` and has its `textOf` delivered, if it comes to that. -/
def ofFile (c : Collaborators) (disk : Disk) (root : String) (compiler : CompilerOptions)
    (path : String) (options : SourceOptions) : Conversion :=
  match textOf c disk root compiler path options with
  | .error failure => ⟨path, none, .error failure⟩
  | .ok text => ⟨path, some text, c.deliver path text⟩

/-- Converts those of the `scanned` files that could be scanned, each by `ofFile`. -/
def all (c : Collaborators) (disk : Disk) (root : String) (compiler : CompilerOptions)
    (scanned : List ScannedFile) : List Conversion :=
  scanned.filterMap fun file =>
    file.outcome.toOption.map (ofFile c disk root compiler file.path)

def tally (conversions : List Conversion) : Tally where
  converted := (conversions.filter (·.outcome.isOk)).map (·.path)
  failed := (conversions.filter (!·.outcome.isOk)).map (·.path)

/-- The files that were `delivered`, with their texts. -/
def deliveries (conversions : List Conversion) : List (String × String) :=
  conversions.filterMap fun c => c.delivered.map fun text => (c.path, text)

/-- What the log says about the conversion `c`. -/
def fileLog (c : Conversion) : List LogEntry :=
  match c.outcome with
  | .ok () => []
  | .error failure =>
    [.error ("Failed to convert file:\n  - " ++ c.path ++ "\n" ++ failure.message)]

/-- Converts the `scanned` files of a package, hands out their `deliveries` and reports them in a
`Tally`. -/
def dispatch (c : Collaborators) (root : String) (compiler : CompilerOptions)
    (scanned : List ScannedFile) : Session Tally := do
  let disk ← Session.disk
  let conversions := all c disk root compiler scanned
  Session.deliver (deliveries conversions)
  Session.say (conversions.flatMap fileLog)
  pure (tally conversions)

end Conversion

end FlowMigration
