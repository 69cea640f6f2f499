import TreeListing.CommandLine.Switch
import TreeListing.Path

/-!
# Arguments

The command line is a list of byte sequences.  Options and inputs may be mixed; after
two hyphens alone everything is an input.  An option that takes a value takes what is
attached to it or else the next argument, unless that begins with a hyphen.

The value of an option or of inputs that come in a row is looked at only when the next
known option comes, or the next input after an option, or the end.  So of two faults
the one that shows first is not always the one that stands first.
-/

namespace TreeListing.CommandLine

/-- What the arguments say. -/
structure Arguments where
  inputs : List Path := []
  config : Option Path := none
  inputsDir : Option Path := none
  outputsDir : Option Path := none
  language : Option String := none
  stdout : Bool := false
  /-- How often more output is asked for. -/
  verbosity : Nat := 0
deriving DecidableEq, Repr

/-- What is wrong with the arguments. -/
inductive UsageFault where
  /-- An argument that looks like an option and is none. -/
  | unexpectedArgument (shown : String)
  /-- A value attached to an option that takes none. -/
  | unexpectedValue (value : String) (switch : Switch)
  /-- A value that is left out or empty. -/
  | noValue (shown : String)
  | repeated (switch : Switch)
  /-- A value that has to be text and is not. -/
  | notText
  | noInputs
deriving DecidableEq, Repr

/-- The written form of a fault. -/
def UsageFault.message : UsageFault → String
  | unexpectedArgument shown => "unexpected argument '" ++ shown ++ "' found"
  | unexpectedValue value switch =>
      "unexpected value '" ++ value ++ "' for '" ++ switch.shown
        ++ "' found; no more were expected"
  | noValue shown => "a value is required for '" ++ shown ++ "' but none was supplied"
  | repeated switch => "the argument '" ++ switch.shown ++ "' cannot be used multiple times"
  | notText => "invalid UTF-8 was detected in one or more arguments"
  | noInputs => "the following required arguments were not provided:\n  " ++ inputsShown

/-- What ends the reading of arguments early. -/
inductive Stop where
  | fault (fault : UsageFault)
  | help
  | version
deriving DecidableEq, Repr

/-- What is known to come but has not been looked at. -/
inductive Pending where
  | none
  /-- An option, and its value once it has come. -/
  | switch (switch : Switch) (value : Option Bytes)
  /-- Inputs in a row. -/
  | inputs (values : List Bytes)
deriving DecidableEq, Repr

/-- Arguments being read. -/
structure Reading where
  arguments : Arguments := {}
  pending : Pending := .none
deriving DecidableEq, Repr

namespace Reading

/-- What reading on gives. -/
abbrev Result := Except Stop Reading

/-- Stop for a fault. -/
def refuse (fault : UsageFault) : Result :=
  .error (.fault fault)

/-- A path, which must not be empty. -/
def path (shown : String) (value : Bytes) : Except Stop Path :=
  if value.isEmpty then .error (.fault (.noValue shown)) else .ok ⟨value⟩

/-- Give an option its path, which it must not have yet. -/
def setPath (s : Switch) (old : Option Path) (value : Bytes) (put : Path → Arguments) :
    Result :=
  if old.isSome then refuse (.repeated s)
  else do
    let p ← path s.shown value
    .ok { arguments := put p }

/-- Give an option its value. -/
def setValue (a : Arguments) (s : Switch) (value : Bytes) : Result :=
  match s with
  | .config => setPath s a.config value fun p => { a with config := p }
  | .inputsDir => setPath s a.inputsDir value fun p => { a with inputsDir := p }
  | .outputsDir => setPath s a.outputsDir value fun p => { a with outputsDir := p }
  | .language =>
      if a.language.isSome then refuse (.repeated s)
      else match Text.ofBytes? value with
        | some text => .ok { arguments := { a with language := text } }
        | none => refuse .notText
  | _ => .ok { arguments := a }

/-- Look at what is pending. -/
def resolve (r : Reading) : Result :=
  match r.pending with
  | .none => .ok r
  | .switch s none => refuse (.noValue s.shown)
  | .switch s (some value) => setValue r.arguments s value
  | .inputs values => do
      let paths ← values.mapM (path inputsShown)
      .ok { arguments := { r.arguments with inputs := r.arguments.inputs ++ paths } }

/-- An option that takes no value. -/
def flag (r : Reading) (s : Switch) : Result := do
  let r ← r.resolve
  let a := r.arguments
  match s with
  | .help => .error .help
  | .version => .error .version
  | .verbose => .ok { r with arguments := { a with verbosity := a.verbosity + 1 } }
  | .stdout =>
      if a.stdout then refuse (.repeated s)
      else .ok { r with arguments := { a with stdout := true } }
  | _ => .ok r

/-- An option that takes a value, which may be attached to it. -/
def valued (r : Reading) (s : Switch) (attached : Option Bytes) : Result := do
  let r ← r.resolve
  match attached with
  | some value => setValue r.arguments s value
  | none => .ok { r with pending := .switch s none }

/-- An input. -/
def input (r : Reading) (value : Bytes) : Result :=
  match r.pending with
  | .inputs values => .ok { r with pending := .inputs (values ++ [value]) }
  | _ => do
      let r ← r.resolve
      .ok { r with pending := .inputs [value] }

/-- The equals sign between a name and a value. -/
def equals : UInt8 := 0x3D

/-- The hyphen before a name. -/
def hyphen : UInt8 := 0x2D

/-- An option by its long name, without the hyphens. -/
def long (r : Reading) (argument : Bytes) : Result :=
  let name := argument.takeWhile (· != equals)
  let attached := (argument.dropWhile (· != equals)).tail?
  match (Text.ofBytes? name).bind Switch.ofLong? with
  | none => refuse (.unexpectedArgument ("--" ++ Text.lossy name))
  | some s =>
      match s.value?, attached with
      | some _, _ => r.valued s attached
      | none, some value => refuse (.unexpectedValue (Text.lossy value) s)
      | none, none => r.flag s

/-- A value attached to a letter; the equals sign before it may be left out. -/
def attachedValue : List Text.Piece → Option Bytes
  | [] => none
  | pieces =>
      let bytes := pieces.flatMap Text.Piece.bytes
      some (if bytes.head? == some equals then bytes.tail else bytes)

/-- Options by their letters.  Behind an option that takes a value, the rest is that. -/
def letters : Reading → List Text.Piece → Result
  | r, [] => .ok r
  | _, .invalid bytes :: rest =>
      refuse (.unexpectedArgument
        ("-" ++ Text.lossy (bytes ++ rest.flatMap Text.Piece.bytes)))
  | r, .char c :: rest =>
      match Switch.ofShort? c with
      | none => refuse (.unexpectedArgument ("-" ++ c.toString))
      | some s =>
          if s.value?.isSome then r.valued s (attachedValue rest)
          else do
            let r ← r.flag s
            letters r rest

/-- One argument.  `onlyInputs` holds after two hyphens alone. -/
def argument (r : Reading) (onlyInputs : Bool) (value : Bytes) : Result :=
  match value, onlyInputs with
  | 0x2D :: 0x2D :: name, false => r.long name
  | 0x2D :: b :: rest, false => r.letters (Text.pieces (b :: rest))
  | _, true => r.input value
  | _, false =>
      match r.pending with
      | .switch s none => .ok { r with pending := .switch s (some value) }
      | _ => r.input value

/-- Read arguments in order. -/
def readAll (r : Reading) (onlyInputs : Bool) : List Bytes → Except Stop Arguments
  | [] => do
      let r ← r.resolve
      if r.1.inputs.isEmpty then .error (.fault .noInputs) else .ok r.1
  | value :: rest =>
      if !onlyInputs && value = [hyphen, hyphen] then readAll r true rest
      else do
        let r ← r.argument onlyInputs value
        readAll r onlyInputs rest

end Reading

/-- What the arguments of a command line say. -/
def Arguments.ofBytes (values : List Bytes) : Except Stop Arguments :=
  Reading.readAll {} false values

end TreeListing.CommandLine
