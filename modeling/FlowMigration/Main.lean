import FlowMigration.CommandLine.Basic

/-! # The program

Reads the part of the disk that a migration looks at, runs the migration on it, writes the
configuration back and prints what there is to say.

* `main`
-/

namespace FlowMigration.CommandLine

/-! ## Reading the disk -/

/-- The name of the directory that marks a checkout, of which only the list of excluded files
matters. -/
def excludeDirectory : String := "info"

/-- Whether the `entry` of a directory with the name `directory` can matter. -/
def concerns (directory entry : String) : Bool :=
  directory ≠ Settings.checkoutMark || entry = excludeDirectory

/-- What stands at `path` and below it, except below directories of dependencies; `name` is that of
the entry itself. -/
partial def readNode (name path : String) : IO (Option Node) := do
  let place := (← IO.currentDir) / path
  match (← place.symlinkMetadata).type with
  | .file => return some (.file (← IO.FS.readBinFile place))
  | .symlink =>
    let target := (← IO.FS.realPath place).toString
    return some (.link (if target = path then "" else target))
  | .dir =>
    if name = Manifest.dependencyDir then return some (.dir [])
    let mut entries := []
    for entry in ← place.readDir do
      if concerns name entry.fileName then
        if let some node ← readNode entry.fileName (Path.join path entry.fileName) then
          entries := Entries.insert entry.fileName node entries
    return some (.dir entries)
  | .other => return none

/-- What stands at `path`, by `readNode`, if anything does. -/
def readNode? (name path : String) : IO (Option Node) := do
  try readNode name path catch _ => return none

/-- The names of `path` from the root of the disk, as `Disk.pathOf` writes them. -/
def placeOf (path : String) : List String :=
  Path.segments (String.ofList (path.toList.dropWhile (· == '/')))

/-- Adds to `disk` what is read at `place`. -/
def addNode (disk : Disk) (place : List String) : IO Disk := do
  match ← readNode? (place.getLast?.getD "") (Disk.pathOf place) with
  | some node => return { disk with root := node.put disk.root place }
  | none => return disk

/-- The entries of a directory that matter to the directories below it. -/
def inherited : List String := [".ignore", ".gitignore", Settings.checkoutMark]

/-- Adds the directory at `place` and those above it, each with the entries that are `inherited`. -/
def addAncestors (disk : Disk) (place : List String) : IO Disk := do
  unless ← ((← IO.currentDir) / Disk.pathOf place).isDir do return disk
  let mut disk := { disk with root := (Node.dir []).put disk.root place }
  for depth in List.range (place.length + 1) do
    for name in inherited do
      disk ← addNode disk (place.take depth ++ [name])
  return disk

/-- The disk as far as a migration with these `settings` looks at it, and the settings with the
directory that they mean. -/
def readDisk (settings : Settings) : IO (Disk × Settings) := do
  let workingDir := placeOf (← IO.currentDir).toString
  let disk ← addAncestors { workingDir } workingDir
  match settings.root with
  | some root =>
    let root := (← IO.FS.realPath ((← IO.currentDir) / root)).toString
    let disk ← addAncestors disk (placeOf root)
    return (← addNode disk (placeOf root), { settings with root := some root })
  | none =>
    match Settings.checkoutAbove disk workingDir with
    | some root => return (← addNode disk (placeOf root), settings)
    | none => return (disk, settings)

/-! ## Output -/

/-- Whether the variable `name` of the environment is set, and to something else than `0`. -/
def variableIsOn (name : String) : IO (Option Bool) := do
  return (← IO.getEnv name).map (· ≠ "0")

/-- Whether the output is coloured: as the environment says (`variableIsOn`), or else if a terminal
shows it. -/
def wantsColor : IO Bool := do
  if (← variableIsOn "CLICOLOR_FORCE") = some true then return true
  if (← variableIsOn "NO_COLOR").isSome then return false
  return (← variableIsOn "CLICOLOR").getD true && (← (← IO.getStdout).isTty)

def levelName : LogLevel → String
  | .error => "ERROR"
  | .warn => "WARN"
  | .info => "INFO"

def printLog (log : List LogEntry) : IO Unit :=
  for entry in log do
    IO.eprintln ("[" ++ levelName entry.level ++ "] " ++ entry.text)

/-- Writes the configuration below `root` if the disk `after` the migration holds another one than
`before`. -/
def writeConfig (root : String) (before after : Disk) : IO Unit := do
  let path := Path.join root ConfigStore.fileName
  if let .ok text := after.read path then
    if (before.read path).toOption ≠ some text then IO.FS.writeFile path text

def printOutput (output : Output) : IO UInt32 := do
  IO.print output.stdout
  IO.eprint output.stderr
  return output.exit.toUInt32

/-- Runs a migration with these `settings` on the disk that `readDisk` reads. -/
def migrate (settings : Settings) : IO UInt32 := do
  let start ← IO.monoMsNow
  let (disk, settings) ← readDisk settings
  let (result, progress) := (Migration.plan settings none).run { disk }
  printLog progress.log
  if let .ok root := settings.findRoot disk then writeConfig root disk progress.disk
  let elapsed := (← IO.monoMsNow) - start
  printOutput (Output.ofMigration (← wantsColor) (Disk.pathOf disk.workingDir) (toString elapsed)
    (settings.threads.getD 1) result)

end FlowMigration.CommandLine

open FlowMigration.CommandLine in
def main (arguments : List String) : IO UInt32 :=
  match Request.ofArguments arguments with
  | .migrate settings => migrate settings
  | request => printOutput (Output.ofRequest request)
