import FlowMigration.Migration

/-! # Arguments

The arguments that a migration is started with. They are worked off from left to right. A value
waits, unread, until the next option or the end: what is wrong with it shows only then, so that an
unknown argument right behind it is reported in its place.

* `Arguments.parse`: the settings that arguments stand for.
* `UsageFault`: what can be wrong with arguments.
-/

namespace FlowMigration

inductive UsageFault where
  | unknownArgument
  | argumentConflict
  | invalidValue
  | valueValidation
  | tooManyValues
deriving DecidableEq, Repr

/-- Why `parse` gives no settings. -/
inductive Stop where
  | fault (fault : UsageFault)
  /-- The help text is asked for. -/
  | help
deriving DecidableEq, Repr

/-- What an argument can set in `Arguments`. -/
inductive Slot where
  | root
  | sources
  | threads
  | noRecast
  | noPrettier
deriving DecidableEq, Repr

/-- The arguments read so far, by `work`. -/
structure Arguments where
  settings : Settings := {}
  filled : List Slot := []
  /-- What was named last, with its value once it is there. -/
  waiting : Option (Slot × Option String) := none
  /-- The root has been named. -/
  rootNamed : Bool := false

namespace Arguments

def fault {α : Type} (f : UsageFault) : Except Stop α := .error (.fault f)

/-- The greatest number of threads that `fill` takes. -/
def maxThreads : Nat := 18446744073709551615

/-- Reads the number that `text` is, without sign or with a plus in front. -/
def readCount (text : String) : Option Nat :=
  let digits := match text.toList with
    | '+' :: rest => rest
    | cs => cs
  if digits.isEmpty || !digits.all Char.isDigit then none
  else
    let n := digits.foldl (fun n c => n * 10 + (c.toNat - '0'.toNat)) 0
    if n ≤ maxThreads then some n else none

/-- Sets `slot` to the value that was given; it is a fault if none was. -/
def fill (args : Arguments) (slot : Slot) : Option String → Except Stop Arguments
  | none => fault .invalidValue
  | some text =>
    if args.filled.contains slot then fault .argumentConflict
    else
      let done := { args with filled := slot :: args.filled }
      match slot with
      | .root =>
        if text.isEmpty then fault .invalidValue
        else .ok { done with settings := { done.settings with root := some text } }
      | .sources => .ok { done with settings := { done.settings with sources := text } }
      | .threads =>
        match readCount text with
        | some n => .ok { done with settings := { done.settings with threads := some n } }
        | none => fault .valueValidation
      | .noRecast => .ok { done with settings := { done.settings with recast := false } }
      | .noPrettier => .ok { done with settings := { done.settings with prettier := false } }

/-- Sets what is `waiting`, if anything is. -/
def settle (args : Arguments) : Except Stop Arguments :=
  match args.waiting with
  | none => .ok args
  | some (slot, value) => { args with waiting := none }.fill slot value

/-- Sets the `slot` of a switch. -/
def switch (args : Arguments) (slot : Slot) : Except Stop Arguments := do
  let args ← args.settle
  args.fill slot (some "")

/-- Ends with the help text, if nothing is `waiting` that is wrong. -/
def help (args : Arguments) : Except Stop Arguments := do
  let _ ← args.settle
  .error .help

/-- The argument `text` that is no option: a value for the option in front of it, or the root. -/
def positional (args : Arguments) (text : String) : Except Stop Arguments :=
  if args.rootNamed then fault .unknownArgument
  else do
    let args ← args.settle
    .ok { args with waiting := some (.root, some text), rootNamed := true }

/-- The option for `slot`, which takes a value; `value` is attached to it. -/
def option (args : Arguments) (slot : Slot) (value : Option String) : Except Stop Arguments := do
  let args ← args.settle
  match value with
  | some text => args.fill slot (some text)
  | none => .ok { args with waiting := some (slot, none) }

/-- An option that takes no `value`. -/
def plain (value : Option String) (next : Except Stop Arguments) : Except Stop Arguments :=
  if value.isSome then fault .tooManyValues else next

/-- The option called `name`, with the `value` that is attached to it. -/
def long (args : Arguments) (name : String) (value : Option String) : Except Stop Arguments :=
  if name = "no-recast" then plain value (args.switch .noRecast)
  else if name = "no-prettier" then plain value (args.switch .noPrettier)
  else if name = "help" then plain value args.help
  else if name = "sources" then args.option .sources value
  else if name = "threads" then args.option .threads value
  else fault .unknownArgument

/-- Options given by their letters, one after the other, as after a single dash. -/
def short : Arguments → List Char → Except Stop Arguments
  | args, [] => .ok args
  | args, c :: rest => do
    let args ←
      if c = 'R' then args.switch .noRecast
      else if c = 'P' then args.switch .noPrettier
      else if c = 'h' then args.help
      else fault .unknownArgument
    args.short rest

/-- The name in `cs` and the value that an equals sign attaches to it. -/
def splitValue (cs : List Char) : String × Option String :=
  match cs.dropWhile (· ≠ '=') with
  | _ :: value => (String.ofList (cs.takeWhile (· ≠ '=')), some (String.ofList value))
  | [] => (String.ofList cs, none)

/-- One argument in front of any `--`. -/
def step (args : Arguments) (text : String) : Except Stop Arguments :=
  match text.toList with
  | '-' :: '-' :: rest =>
    let (name, value) := splitValue rest
    args.long name value
  | '-' :: c :: rest => args.short (c :: rest)
  | _ =>
    match args.waiting with
    | some (slot, none) => .ok { args with waiting := some (slot, some text) }
    | _ => args.positional text

/-- Works off arguments; behind `--` none is an option. -/
def work : Arguments → List String → Except Stop Arguments
  | args, [] => args.settle
  | args, text :: rest =>
    if text = "--" then do
      let args ← rest.foldlM positional args
      args.settle
    else do
      let args ← args.step text
      args.work rest

/-- The settings that `texts` stand for, or why they stand for none. -/
def parse (texts : List String) : Except Stop Settings :=
  (({} : Arguments).work texts).map (·.settings)

end Arguments

end FlowMigration
