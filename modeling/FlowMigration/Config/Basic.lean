import FlowMigration.Failure
import FlowMigration.Json.Decode

/-! # The configuration of a migration

What a migration has found out about a repository, as it is kept in a file at its root.

* `MigrationConfig`: the configuration; members of the file that have no meaning here are kept.
* `MigrationConfig.toJson`: the configuration as it is written.
* `MigrationConfig.mergedOver`: a configuration read from a file, with defaults for what is missing.
-/

namespace FlowMigration

/-- Settings of the compiler for a package, which `Usage.compilerOptions` makes. -/
structure CompilerOptions where
  strict : Bool := false
  allowJs : Option Bool := none
  jsx : Option String := none
deriving DecidableEq, Repr

/-- Which files a package consists of, its `sources` without its `ignores`, and how they are
compiled. -/
structure PackageConfig where
  /-- The glob of its sources, relative to the root of the repository. -/
  sources : String
  /-- The globs of what is left out. -/
  ignores : List String
  compilerOptions : CompilerOptions := {}
deriving DecidableEq, Repr

structure MigrationConfig where
  version : String
  prettier : Bool
  recast : Bool
  /-- The packages by their keys (`TopologyEntry.key`). -/
  packages : Dict PackageConfig := {}
  /-- Members that have no meaning here, those outside `knownKeys`. -/
  other : Dict Json := {}

/-! ## Writing -/

def CompilerOptions.toJson (options : CompilerOptions) : Json :=
  .object ([("strict", .bool options.strict)] ++
    (options.allowJs.map fun b => ("allowJs", Json.bool b)).toList ++
    (options.jsx.map fun text => ("jsx", Json.string text)).toList)

def PackageConfig.toJson (config : PackageConfig) : Json :=
  .object [("sources", .string config.sources), ("ignores", .array (config.ignores.map .string)),
    ("compilerOptions", config.compilerOptions.toJson)]

/-! ## Reading -/

namespace CompilerOptions

/-- Reads `CompilerOptions` from an object or from an array of their values. -/
def ofJson : Json → Except Mismatch CompilerOptions
  | .object members => do
    let allowJs ← Json.optionalMember "allowJs" (Json.asOptional Json.asBool) members
    let jsx ← Json.optionalMember "jsx" (Json.asOptional Json.asText) members
    let strict ← Json.optionalMember "strict" Json.asBool members
    .ok ⟨strict.getD false, allowJs.join, jsx.join⟩
  | .array items => do
    let strict ← items[0]?.mapM Json.asBool
    let allowJs ← items[1]?.mapM (Json.asOptional Json.asBool)
    let jsx ← items[2]?.mapM (Json.asOptional Json.asText)
    Json.checkLength 3 items
    .ok ⟨strict.getD false, allowJs.join, jsx.join⟩
  | value => value.mismatch "struct CompilerOptions"

end CompilerOptions

namespace PackageConfig

/-- The item at `index` of an array that stands for a package, by `read`. -/
def item {α : Type} (items : List Json) (index : Nat) (read : Json → Except Mismatch α) :
    Except Mismatch α :=
  match items[index]? with
  | some value => read value
  | none => .error (.invalidLength index "struct PackageConfig with 3 elements")

/-- Reads a `PackageConfig` from an object or from an array of its values. -/
def ofJson : Json → Except Mismatch PackageConfig
  | .object members => do
    let options ← Json.optionalMember "compilerOptions" CompilerOptions.ofJson members
    let ignores ← Json.optionalMember "ignores" Json.asTextList members
    let sources ← Json.optionalMember "sources" Json.asText members
    let sources ← Json.requireMember "sources" sources
    let ignores ← Json.requireMember "ignores" ignores
    .ok ⟨sources, ignores, options.getD {}⟩
  | .array items => do
    let sources ← item items 0 Json.asText
    let ignores ← item items 1 Json.asTextList
    let options ← items[2]?.mapM CompilerOptions.ofJson
    Json.checkLength 3 items
    .ok ⟨sources, ignores, options.getD {}⟩
  | value => value.mismatch "struct PackageConfig"

end PackageConfig

namespace MigrationConfig

/-- The version that a `fresh` configuration carries. -/
def currentVersion : String := "0.1.0"

/-- The configuration of a repository that has none, with the switches `prettier` and `recast`. -/
def fresh (prettier recast : Bool) : MigrationConfig :=
  { version := currentVersion, prettier, recast }

/-- The members that have a meaning, in the order in which they are written. -/
def knownKeys : List String := ["version", "prettier", "recast", "packages"]

/-- The members of `config` in the order in which they are written: `knownKeys`, then the `other`
ones. -/
def members (config : MigrationConfig) : List (String × Json) :=
  [("version", .string config.version), ("prettier", .bool config.prettier),
    ("recast", .bool config.recast),
    ("packages", .object (config.packages.entries.map fun e => (e.1, e.2.toJson)))] ++
    config.other.entries

def toJson (config : MigrationConfig) : Json := .object config.members

/-- Reads a configuration from its `members`, in any order. -/
def ofMembers (members : Dict Json) : Except Mismatch MigrationConfig := do
  let packages ← Json.optionalMember "packages" (Json.asDict PackageConfig.ofJson) members.entries
  let prettier ← Json.optionalMember "prettier" Json.asBool members.entries
  let recast ← Json.optionalMember "recast" Json.asBool members.entries
  let version ← Json.optionalMember "version" Json.asText members.entries
  let version ← Json.requireMember "version" version
  let prettier ← Json.requireMember "prettier" prettier
  let recast ← Json.requireMember "recast" recast
  .ok ⟨version, prettier, recast, packages.getD {},
    members.filter fun key => !knownKeys.contains key⟩

/-- The configuration in which every member of `existing` replaces that of `defaults`. -/
def mergedOver (defaults : MigrationConfig) : Json → Except ConfigFault MigrationConfig
  | .object existing =>
    (ofMembers ((Dict.ofList defaults.members).extend (Dict.ofList existing))).mapError .mismatch
  | _ => .error .notObject

end MigrationConfig

end FlowMigration
