import FlowMigration.CommandLine.Arguments
import FlowMigration.CommandLine.Help
import FlowMigration.Report.Printer

/-! # The command line

What the program does with its arguments and what it prints.

* `CommandLine.Request.ofArguments`: what is asked for.
* `CommandLine.Output`: what is printed, and how the program ends.
-/

namespace FlowMigration.CommandLine

inductive Request where
  /-- A text is to be printed. -/
  | print (text : String)
  | migrate (settings : Settings)
  /-- The arguments are wrong. -/
  | refuse
deriving DecidableEq, Repr

namespace Request

def version : String := Help.program ++ " " ++ MigrationConfig.currentVersion ++ "\n"

def repositoryHelp : String := Help.migration (Help.program ++ " " ++ Help.command)

/-- What the arguments behind the name of the command ask for: settings, as `Arguments.parse` reads
them, or why not. -/
def ofCommand (texts : List String) : Request :=
  match Arguments.parse texts with
  | .ok settings => .migrate settings
  | .error .help => .print repositoryHelp
  | .error (.fault _) => .refuse

/-- What the arguments behind `help` ask for. -/
def ofHelp : List String → Request
  | [] => .print Help.overview
  | [topic] =>
    if topic = Help.command then .print repositoryHelp
    else if topic = "help" then .print Help.help
    else .refuse
  | _ => .refuse

/-- What the arguments of the program ask for, `ofCommand` or `ofHelp`. -/
def ofArguments : List String → Request
  | [] => .refuse
  | text :: rest =>
    if text = Help.command then ofCommand rest
    else if text = "help" then ofHelp rest
    else if text = "--help" then .print Help.overview
    else if text = "--version" then .print version
    else
      match text.toList with
      | '-' :: 'h' :: _ => .print Help.overview
      | '-' :: 'V' :: _ => .print version
      | _ => .refuse

end Request

/-- What is printed, and how the program ends, for a `Request`. -/
structure Output where
  exit : Nat := 0
  stdout : String := ""
  stderr : String := ""
deriving DecidableEq, Repr

/-- The `text` with every line but the first indented. -/
def indentLines (text : String) : String :=
  String.ofList (text.toList.flatMap fun c =>
    if c = '\n' then ['\n', ' ', ' ', ' ', ' '] else [c])

/-- The last line of a migration that went through in `elapsed`, with as many `packages` and
`threads`. -/
def finishedPieces (elapsed : String) (packages threads : Nat) : List Text.Styled :=
  [.plain "\n", .of .brightBlue "●", .plain " Finished in ", .of .cyan elapsed, .plain "ms on ",
    .of .cyan (toString packages), .plain " packages (using ", .of .cyan (toString threads),
    .plain " threads).\n"]

/-- The words for `failure`: its first explanation, and the causes below it (`Failure.layers`). -/
def failureText (failure : Failure) : String :=
  match failure.layers with
  | [] => "Error: \n"
  | [only] => "Error: " ++ only ++ "\n"
  | outer :: causes =>
    "Error: " ++ outer ++ "\n\nCaused by:" ++
      String.join (causes.map fun cause => "\n    " ++ indentLines cause) ++ "\n"

/-- What is printed at the end of a migration. `elapsed` is the time it took, in milliseconds. -/
def Output.ofMigration (color : Bool) (workingDir elapsed : String) (threads : Nat) :
    Except Failure Report → Output
  | .ok report =>
    { stdout := report.print color workingDir ++
        Text.Styled.render color (finishedPieces elapsed report.packages.length threads) }
  | .error failure => { exit := 1, stderr := failureText failure }

/-- What is printed for a `Request` that is no migration. -/
def Output.ofRequest : Request → Output
  | .print text => { stdout := text }
  | _ => { exit := 2 }

end FlowMigration.CommandLine
