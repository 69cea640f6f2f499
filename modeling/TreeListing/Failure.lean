import TreeListing.Disk.Fault
import TreeListing.Settings.Fault

/-!
# Failures

Why a listing cannot be made, with the message and the exit code of each reason.
-/

namespace TreeListing

/-- A reason why a listing cannot be made. -/
inductive Failure where
  | inputNotFound (path : Path)
  | read (path : Path) (cause : IoFault)
  | write (path : Path) (cause : IoFault)
  | unsupportedLanguage (what : String)
  /-- A grammar cannot be loaded or gives no tree. -/
  | parser (what : String)
  | settings (fault : SettingsFault)
  | cursorNotAtRoot (depth : Nat)
  /-- Some inputs out of several failed, each for a reason of its own. -/
  | batchFailed (failed total : Nat)
deriving DecidableEq, Repr

namespace Failure

/-- The written form of a reason. -/
def message : Failure → String
  | inputNotFound path => "input file not found: " ++ path.text
  | read path _ => "failed to read input file " ++ path.text
  | write path _ => "failed to write output file " ++ path.text
  | unsupportedLanguage what => "unsupported language: " ++ what
  | parser what => "parser error: " ++ what
  | settings fault => SettingsFault.heading ++ fault.message
  | cursorNotAtRoot depth =>
      "cursor must be positioned at the tree root (found depth " ++ toString depth ++ ")"
  | batchFailed failed total =>
      toString failed ++ " of " ++ toString total ++ " inputs failed to render"

/-- The exit code of a program that stops for a reason. -/
def exitCode : Failure → Nat
  | inputNotFound _ => 2
  | read _ _ => 3
  | write _ _ => 4
  | unsupportedLanguage _ => 5
  | parser _ => 6
  | settings _ => 7
  | cursorNotAtRoot _ | batchFailed _ _ => 1

/-- What caused a failure, nearest first. -/
def causes : Failure → List String
  | read _ cause | write _ cause => [cause.message]
  | _ => []

end Failure

end TreeListing
