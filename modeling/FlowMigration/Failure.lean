import FlowMigration.Json.Fault
import FlowMigration.Walk

/-! # Failures

Why a step of a migration failed. A failure has layers of explanation: what could not be done, and
below it why.

* `Failure.layers`: the explanations, the outermost first.
* `Failure.message`: all of them in one line.
-/

namespace FlowMigration

/-- Why a configuration could not be taken over by `ConfigStore`. -/
inductive ConfigFault where
  /-- The text is no JSON; the fault is described with its position. -/
  | malformed (description : String)
  | notObject
  | mismatch (m : Mismatch)
deriving DecidableEq, Repr

def ConfigFault.message : ConfigFault → String
  | .malformed description => description
  | .notObject => "expected a JSON object at the top level"
  | .mismatch m => m.message

inductive Failure where
  | unreadable (path : String) (error : FileError)
  | unparsable (path : String) (description : String)
  | walk (start : String) (error : WalkError)
  | sourceGlob (glob : String) (bad : BadPattern)
  | ignoreGlob (glob : String) (bad : BadPattern)
  | unloadable (path : String) (fault : ConfigFault)
  | unwritable (path : String) (error : FileError)
  | irreplaceable (path : String) (error : FileError)
  | noCheckout
  | noRoot
  /-- What a converter, a formatter or a sink said. -/
  | refused (message : String)
deriving DecidableEq, Repr

namespace Failure

/-- The explanations of a `Failure`, the outermost first. -/
def layers : Failure → List String
  | .unreadable path error => ["Failed to read " ++ path, error.message]
  | .unparsable path description => ["Failed to parse " ++ path, description]
  | .walk start error => ["Failed to walk " ++ start, error.message]
  | .sourceGlob glob bad => ["Invalid source glob '" ++ glob ++ "'", bad.message]
  | .ignoreGlob glob bad => ["Invalid ignore glob '" ++ glob ++ "'", bad.message]
  | .unloadable path fault => ["Failing to load config file " ++ path, fault.message]
  | .unwritable path error => ["Failed to write " ++ path, error.message]
  | .irreplaceable path error => ["Failed to replace " ++ path, error.message]
  | .noCheckout => ["Could not find .git directory in any parent folder"]
  | .noRoot => ["Config not initialized - call initialize() first"]
  | .refused message => [message]

def message (failure : Failure) : String := ": ".intercalate failure.layers

end Failure

/-! ## Log -/

inductive LogLevel where
  | error
  | warn
  | info
deriving DecidableEq, Repr

/-- A message of the log, as a `Session` says it. -/
structure LogEntry where
  level : LogLevel
  text : String
deriving DecidableEq, Repr

namespace LogEntry

def error (text : String) : LogEntry := ⟨.error, text⟩

def warn (text : String) : LogEntry := ⟨.warn, text⟩

def info (text : String) : LogEntry := ⟨.info, text⟩

end LogEntry

end FlowMigration
