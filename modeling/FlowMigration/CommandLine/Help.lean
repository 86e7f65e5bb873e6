import FlowMigration.Package.Scope

/-! # Help texts

What the program says about itself.
-/

namespace FlowMigration.Help

/-- The name of the program, as `overview` gives it. -/
def program : String := "flowts"

/-- The name of the command that migrates a repository. -/
def command : String := "repository"

def lines (texts : List String) : String := String.join (texts.map (· ++ "\n"))

/-- The help text of the migration of a repository, which is started by `usage`. -/
def migration (usage : String) : String :=
  lines [
    "Migrate project at specified path",
    "",
    "Usage: " ++ usage ++ " [OPTIONS] [ROOT]",
    "",
    "Arguments:",
    "  [ROOT]  Path to the repository (defaults to git root)",
    "",
    "Options:",
    "  -R, --no-recast          Use babel generator instead of recast",
    "  -P, --no-prettier        Do not run prettier on converted code",
    "      --sources <SOURCES>  Glob appended to each package directory to match its source " ++
      "files [default: " ++ PackageScope.defaultSources ++ "]",
    "      --threads <THREADS>  Number of threads used to scan files " ++
      "(defaults to the number of CPUs)",
    "  -h, --help               Print help"]

/-- The help text of the program, with every `command`. -/
def overview : String :=
  lines [
    "Flow to TypeScript migration toolkit",
    "",
    "Usage: " ++ program ++ " <COMMAND>",
    "",
    "Commands:",
    "  " ++ command ++ "  Migrate project at specified path",
    "  help        Print this message or the help of the given subcommand(s)",
    "",
    "Options:",
    "  -h, --help     Print help",
    "  -V, --version  Print version"]

/-- The help text of the command that prints help texts. -/
def help : String :=
  lines [
    "Print this message or the help of the given subcommand(s)",
    "",
    "Usage: " ++ program ++ " help [COMMAND]...",
    "",
    "Arguments:",
    "  [COMMAND]...  Print help for the subcommand(s)"]

end FlowMigration.Help
