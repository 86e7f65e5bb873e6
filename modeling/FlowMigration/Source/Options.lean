/-! # What a source file says

The facts about a source file that a migration is planned from.
-/

namespace FlowMigration

structure SourceOptions where
  /-- The file is written for Flow. -/
  isFlow : Bool := false
  hasJsx : Bool := false
  /-- The module specifiers in source order, repeated ones included. -/
  imports : List String := []
  /-- The file could not be parsed, and these facts come from its text (`TextScan.scan`). -/
  lexical : Bool := false
deriving DecidableEq, Repr

namespace SourceOptions

/-- The ending of declaration files, which always are written for Flow (`isDeclaration`). -/
def declarationEnding : String := ".js.flow"

/-- Whether the name in `path` alone makes the file one for Flow. -/
def isDeclaration (path : String) : Bool :=
  declarationEnding.toList.isSuffixOf path.toList

end SourceOptions

end FlowMigration
