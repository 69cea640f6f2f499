import TreeListing.Disk.Operations
import TreeListing.Failure
import TreeListing.Grammar.Basic
import TreeListing.Log.Event

/-!
# Workspaces

Work is done in a workspace: a disk, a parser and a log.  It may fail; whatever it has
changed until then stays changed.
-/

namespace TreeListing

/-- What work is done with. -/
structure Workspace where
  disk : Disk := {}
  parser : SourceParser := {}
  /-- The events reported so far, in order. -/
  log : Array Log.Event := #[]

/-- Work in a workspace that ends with a value or a failure. -/
abbrev Work (α : Type) := ExceptT Failure (StateM Workspace) α

namespace Work

/-- Do some work in a workspace. -/
def runIn {α : Type} (t : Work α) (w : Workspace) : Except Failure α × Workspace :=
  t.run.run w

/-- Report an event. -/
def report (level : Log.Level) (target message : String) (fields : List (String × String)) :
    Work Unit :=
  modify fun w => { w with log := w.log.push ⟨level, target, message, fields⟩ }

/-- The disk as it is now. -/
def disk : Work Disk :=
  return (← get).disk

/-- Go on with another disk. -/
def setDisk (d : Disk) : Work Unit :=
  modify fun w => { w with disk := d }

/-- Do some work and go on with its outcome, whatever it is. -/
def attempt {α : Type} (t : Work α) : Work (Except Failure α) :=
  ExceptT.mk (Except.ok <$> t.run)

/-- Do some work with a parser of its own, and go on with the one from before. -/
def withOwnParser {α : Type} (t : Work α) : Work α := do
  let parser := (← get).parser
  modify fun w => { w with parser := {} }
  let outcome ← t.attempt
  modify fun w => { w with parser := parser }
  MonadExcept.ofExcept outcome

end Work

end TreeListing
