import FlowMigration.Failure

/-! # Sessions

The course of a migration: it reads and changes the disk, writes a log and hands out converted
files, and it may fail at any step. What was done before a failure stays done.

* `Progress`: what has been done so far.
* `Session`: steps of a migration.
-/

namespace FlowMigration

/-- What a migration has done so far: the `disk` as it left it, its `log` and its `deliveries`. -/
structure Progress where
  disk : Disk
  log : List LogEntry := []
  /-- The converted files that were handed out, by path and text. -/
  deliveries : List (String × String) := []

/-- Steps that start from some `Progress` and come to more. -/
def Session (α : Type) : Type := Progress → Except Failure α × Progress

namespace Session

instance : Monad Session where
  pure a := fun p => (.ok a, p)
  bind step next := fun p =>
    match step p with
    | (.ok a, p) => next a p
    | (.error failure, p) => (.error failure, p)

variable {α : Type}

def run (session : Session α) (p : Progress) : Except Failure α × Progress := session p

/-- The disk as it is in the `Progress`. -/
def disk : Session Disk := fun p => (.ok p.disk, p)

def say (entries : List LogEntry) : Session Unit := fun p =>
  (.ok (), { p with log := p.log ++ entries })

def info (text : String) : Session Unit := say [.info text]

def deliver (files : List (String × String)) : Session Unit := fun p =>
  (.ok (), { p with deliveries := p.deliveries ++ files })

/-- The value of `result`; its failure ends the session. -/
def get (result : Except Failure α) : Session α := fun p => (result, p)

/-- The result that `find` comes to on the disk. -/
def look (find : Disk → Except Failure α) : Session α := fun p => (find p.disk, p)

/-- An operation that changes the disk; `failure` says what its error means. -/
def change (operation : Disk → Except FileError Disk) (failure : FileError → Failure) :
    Session Unit := fun p =>
  match operation p.disk with
  | .ok disk => (.ok (), { p with disk })
  | .error error => (.error (failure error), p)

end Session

end FlowMigration
