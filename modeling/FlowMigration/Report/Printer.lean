import FlowMigration.Report.Basic
import FlowMigration.Text.Styled

/-! # Printing a report

The report of a migration as it is shown on a terminal.

* `Report.pieces`: the text in pieces with their styles.
* `Report.print`: the text itself.
-/

namespace FlowMigration

open Text

namespace PackageReport

def label (package : PackageReport) : String :=
  if package.key = TopologyEntry.rootKey then package.key ++ " (root)" else package.key

/-- The name of `package`, or what stands for it. -/
def nameStyled (package : PackageReport) : Styled :=
  if package.hasManifestErrors then .of .red "invalid package.json"
  else
    match package.name with
    | some name => .of .brightWhite name
    | none => .of .dimmed "unnamed"

/-- The dialects that the files of `package` are written in, of its compiler options. -/
def dialects (package : PackageReport) : List String :=
  (if package.usage.hasJs then ["allowJs"] else []) ++
    if package.usage.hasJsx then ["jsx"] else []

def headline (package : PackageReport) : List Styled :=
  [.of .brightBlue "▸", .plain " ", .of .bold package.label, .plain " ", package.nameStyled,
    .plain "\n"]

/-- How many files and dependencies `package` has. -/
def counts (package : PackageReport) : List Styled :=
  [.plain "    ", .of .cyan (toString package.usage.filesScanned), .plain " files, ",
    .of .cyan (toString package.usage.externalDependencies.size), .plain " external, ",
    .of .cyan (toString package.internalDependencies.size), .plain " internal",
    .plain (if package.dialects.isEmpty then ""
      else " [" ++ ", ".intercalate package.dialects ++ "]"),
    .plain "\n"]

/-- A line that lists `names` under `word`, unless there are none. -/
def listing (word : String) (names : List String) : List Styled :=
  if names.isEmpty then []
  else [.plain "    ", .of .dimmed word, .plain (" " ++ ", ".intercalate names ++ "\n")]

def failedLine (file : String) : List Styled :=
  [.plain "    ", .of .red "✗", .plain (" " ++ file ++ "\n")]

def lexicalLine (file : String) : List Styled :=
  [.plain "    ", .of .yellow "~", .plain (" " ++ file ++ " "),
    .of .dimmed "(not parsed, text scan)", .plain "\n"]

def pieces (package : PackageReport) : List Styled :=
  package.headline ++ package.counts ++ listing "uses" package.internalDependencies.toList ++
    listing "skips" package.excludes ++ package.usage.failedFiles.flatMap failedLine ++
    package.usage.lexicalFiles.flatMap lexicalLine

end PackageReport

namespace Report

/-- The `path` as it is shown: relative to `workingDir` if it lies below it. -/
def shownPath (workingDir path : String) : String :=
  match Path.relativeTo? workingDir path with
  | some rest => if rest.isEmpty then path else rest
  | none => path

def title (report : Report) : List Styled :=
  [.of .brightBlue "●", .plain " Migration plan for ", .of .cyan (toString report.packages.length),
    .plain " packages\n\n"]

def conflictLine (conflict : NameConflict) : List Styled :=
  [.plain "  ", .of .bold conflict.name, .plain (" " ++ conflict.kept ++ " kept, "),
    .of .dimmed conflict.rejected, .plain " ignored\n"]

def conflictPieces (conflicts : List NameConflict) : List Styled :=
  if conflicts.isEmpty then []
  else
    [.plain "\n", .of .boldYellow "⚠", .plain " Duplicate package names (",
      .of .yellow (toString conflicts.length), .plain ")\n"] ++ conflicts.flatMap conflictLine

def failedManifestPieces (count : Nat) : List Styled :=
  if count = 0 then []
  else
    [.plain "\n", .of .boldYellow "⚠", .plain " ", .of .yellow (toString count),
      .plain " package.json files could not be parsed\n"]

def conversionPieces : Option Tally → List Styled
  | none => []
  | some tally =>
    [.plain "\n", .of .brightBlue "●", .plain " Converted ",
      .of .cyan (toString tally.converted.length), .plain " files, ",
      .of .red (toString tally.failed.length), .plain " failed\n"]

/-- The last line of `report`: how many files there were, and where the configuration is. -/
def summaryPieces (workingDir : String) (report : Report) : List Styled :=
  [.plain "\n", if report.filesFailed = 0 then .of .boldGreen "✓" else .of .boldRed "✗",
    .plain " Analyzed ", .of .cyan (toString report.filesAnalyzed), .plain " files (",
    .of .cyan (toString report.filesFailed), .plain " failed). Configuration written to ",
    .of .underline (shownPath workingDir report.configPath), .plain "\n"]

def pieces (workingDir : String) (report : Report) : List Styled :=
  report.title ++ report.packages.flatMap PackageReport.pieces ++
    conflictPieces report.nameConflicts ++ failedManifestPieces report.manifestsFailed ++
    conversionPieces report.conversions ++ summaryPieces workingDir report

/-- The text of `report`, as seen from `workingDir`. -/
def print (color : Bool) (workingDir : String) (report : Report) : String :=
  Styled.render color (report.pieces workingDir)

end Report

end FlowMigration
