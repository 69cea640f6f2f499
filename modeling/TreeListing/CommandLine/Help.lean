import TreeListing.CommandLine.Switch
import TreeListing.Log.Format

/-!
# Help

The help text: how the program is called, and a line for each option.  Descriptions
stand in a column of their own.
-/

namespace TreeListing.CommandLine

/-- A text in a style, if styles are switched on. -/
def painted (coloured : Bool) (style text : String) : String :=
  if coloured then Log.styled style text else text

/-- A heading, which is bold and underlined. -/
def heading (coloured : Bool) (text : String) : String :=
  if coloured then "\x1b[1m" ++ Log.styled "4" text else text

/-- How the program is called. -/
def usage (coloured : Bool) : String :=
  heading coloured "Usage:" ++ " " ++ painted coloured "1" programName ++ " [OPTIONS] "
    ++ inputsShown

namespace Switch

/-- The names of an option and its value, in front of its description. -/
def names (coloured : Bool) (s : Switch) : String :=
  let short := match s.short? with
    | some c => painted coloured "1" ("-" ++ c.toString) ++ ", "
    | none => "    "
  "  " ++ short ++ painted coloured "1" ("--" ++ s.long) ++ s.suffix

/-- The width of the column of names. -/
def namesWidth : Nat :=
  ((all.map fun (s : Switch) => (s.names false).length).foldl max 0) + 2

/-- The line of an option. -/
def helpLine (coloured : Bool) (s : Switch) : String :=
  s.names coloured
    ++ String.ofList (List.replicate (namesWidth - (s.names false).length) ' ')
    ++ s.description

end Switch

/-- The help text. -/
def helpText (coloured : Bool) : String :=
  let lines :=
    ["Playground-style syntax tree dumps from tree-sitter grammars", "", usage coloured, "",
      heading coloured "Arguments:",
      "  " ++ inputsShown ++ "  Input files, resolved against the inputs directory", "",
      heading coloured "Options:"]
      ++ Switch.all.map (Switch.helpLine coloured)
  "\n".intercalate lines ++ "\n"

/-- The name and the version of the program. -/
def versionText : String :=
  programName ++ " 0.1.0\n"

end TreeListing.CommandLine
