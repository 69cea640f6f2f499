/-!
# Log events

What a program reports about its work while it runs: a message with named values, and
a level that says how much it matters.  The target names the part of the program that
reports.
-/

namespace TreeListing.Log

/-- How much an event matters, the most first. -/
inductive Level where
  | error
  | warn
  | info
  | debug
  | trace
deriving DecidableEq, Repr

namespace Level

/-- The number of levels up to this one. -/
def rank : Level → Nat
  | error => 1
  | warn => 2
  | info => 3
  | debug => 4
  | trace => 5

/-- The name of a level. -/
def name : Level → String
  | error => "ERROR"
  | warn => "WARN"
  | info => "INFO"
  | debug => "DEBUG"
  | trace => "TRACE"

end Level

/-- A report. -/
structure Event where
  level : Level
  target : String
  message : String
  /-- Values by name, in the order in which they are shown. -/
  fields : List (String × String)
deriving DecidableEq, Repr

end TreeListing.Log
