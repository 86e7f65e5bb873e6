import FlowMigration.Script.Program
import FlowMigration.Source.TextScan

/-! # Facts about a source file

* `SourceOptions.detect`: what a source file says, from its phrases if it can be read and from its
  text otherwise.
-/

namespace FlowMigration.SourceOptions

/-- The facts about the source file at `path` that could be read as `program`. -/
def ofProgram (program : Script.Program) (path : String) : SourceOptions where
  isFlow := isDeclaration path || Pragma.decide program.comments
  hasJsx := program.hasElement
  imports := program.requests.map (·.specifier)

/-- The facts about a source file: those of its program, or of `TextScan` if it has none. -/
def detect (source path : String) : SourceOptions :=
  match Script.Program.read source with
  | some program => ofProgram program path
  | none => TextScan.scan source path

end FlowMigration.SourceOptions
