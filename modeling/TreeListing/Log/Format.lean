import TreeListing.Log.Event

/-!
# Log lines

An event on one line: the time, the level in a column of five characters, the message,
and the fields with their values.  Colours are switched on by escape sequences.
-/

namespace TreeListing.Log

/-- A text between the escape sequences that switch a style on and off. -/
def styled (style text : String) : String :=
  "\x1b[" ++ style ++ "m" ++ text ++ "\x1b[0m"

/-- The style of a level. -/
def Level.style : Level → String
  | error => "31"
  | warn => "33"
  | info => "32"
  | debug => "34"
  | trace => "35"

/-- A level with blanks before its name, so that all take the same room. -/
def Level.padded (l : Level) : String :=
  String.ofList (List.replicate (5 - l.name.length) ' ') ++ l.name

/-- A named value. -/
def fieldText (coloured : Bool) (field : String × String) : String :=
  if coloured then styled "3" field.1 ++ styled "2" "=" ++ field.2
  else field.1 ++ "=" ++ field.2

/-- An event on one line. -/
def Event.line (coloured : Bool) (time : String) (e : Event) : String :=
  let paint (style text : String) : String := if coloured then styled style text else text
  " ".intercalate
    (paint "2" time :: paint e.level.style e.level.padded :: e.message
      :: e.fields.map (fieldText coloured))

end TreeListing.Log
