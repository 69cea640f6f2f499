/-!
# Switches

The options of the command line, with their names, the values that they take, and what
the help text says about them.
-/

namespace TreeListing.CommandLine

/-- The name that the program goes by. -/
def programName : String := "tree-builder"

/-- An option. -/
inductive Switch where
  | config
  | inputsDir
  | outputsDir
  | language
  | stdout
  | verbose
  | help
  | version
deriving DecidableEq, Repr

/-- How the inputs are shown. -/
def inputsShown : String := "<INPUTS>..."

namespace Switch

/-- Every option, in the order of the help text. -/
def all : List Switch :=
  [config, inputsDir, outputsDir, language, stdout, verbose, help, version]

/-- The name after two hyphens. -/
def long : Switch → String
  | config => "config"
  | inputsDir => "inputs-dir"
  | outputsDir => "outputs-dir"
  | language => "language"
  | stdout => "stdout"
  | verbose => "verbose"
  | help => "help"
  | version => "version"

/-- The letter after one hyphen. -/
def short? : Switch → Option Char
  | config => some 'c'
  | inputsDir => some 'i'
  | outputsDir => some 'o'
  | language => some 'l'
  | stdout => none
  | verbose => some 'v'
  | help => some 'h'
  | version => some 'V'

/-- What the value is called, for an option that takes one. -/
def value? : Switch → Option String
  | config => some "CONFIG"
  | inputsDir => some "INPUTS_DIR"
  | outputsDir => some "OUTPUTS_DIR"
  | language => some "LANGUAGE"
  | _ => none

/-- What stands after the name when the option is shown. -/
def suffix (s : Switch) : String :=
  match s.value? with
  | some value => " <" ++ value ++ ">"
  | none => if s = verbose then "..." else ""

/-- The option as it is shown in messages. -/
def shown (s : Switch) : String :=
  "--" ++ s.long ++ s.suffix

/-- What the option does. -/
def description : Switch → String
  | config => "Configuration file (defaults to ./tree-builder.yaml when present)"
  | inputsDir => "Directory input files are resolved against"
  | outputsDir => "Directory rendered trees are written to"
  | language => "Grammar to use instead of detecting it from the file extension"
  | stdout => "Print rendered trees to stdout instead of writing files"
  | verbose => "Verbose output (can be repeated: -v, -vv, -vvv)"
  | help => "Print help"
  | version => "Print version"

/-- The option with a long name. -/
def ofLong? (name : String) : Option Switch :=
  all.find? fun (s : Switch) => s.long == name

/-- The option with a letter. -/
def ofShort? (c : Char) : Option Switch :=
  all.find? fun (s : Switch) => s.short? == some c

end Switch

end TreeListing.CommandLine
