import TreeListing.Batch
import TreeListing.CommandLine.Arguments
import TreeListing.CommandLine.Help
import TreeListing.Log.Filter
import TreeListing.Settings.Load

/-!
# Running the program

A run reads its arguments, finds its settings, and lists its inputs, either into files
or to the standard output.  It ends with an exit code and with what it has printed.
-/

namespace TreeListing.CommandLine

/-- The environment variables. -/
abbrev Environment := String → Option String

namespace Environment

/-- Whether a variable is set and not empty. -/
def isGiven (env : Environment) (name : String) : Bool :=
  (env name).any (!·.isEmpty)

/-- Whether messages and headings are coloured. -/
def coloursMessages (env : Environment) : Bool :=
  (env "CLICOLOR_FORCE").any (· != "0")

/-- Whether log lines are coloured. -/
def coloursLog (env : Environment) : Bool :=
  !env.isGiven "NO_COLOR"

/-- Whether the help text is coloured. -/
def coloursHelp (env : Environment) : Bool :=
  !env.isGiven "NO_COLOR" && env.isGiven "CLICOLOR_FORCE"

/-- The log events that are shown: those that the environment asks for, or else those
up to a level that rises with the verbosity. -/
def logFilter (env : Environment) (verbosity : Nat) : Log.Filter :=
  match (env "RUST_LOG").bind Log.Filter.ofText? with
  | some filter => filter
  | none => .upTo (min (Log.Level.warn.rank + verbosity) Log.Level.trace.rank)

end Environment

/-- What a run prints and how it ends. -/
structure Output where
  code : Nat
  stdout : String := ""
  stderr : String := ""
deriving DecidableEq, Repr

/-- The listing part of a run: lines for the standard output, lines about inputs that
failed, and the failure that it ends with, if any. -/
structure Report where
  printed : List String := []
  complaints : List String := []
  failure : Option Failure := none
deriving DecidableEq, Repr

/-! ## Listing -/

/-- The line above a listing when there are several. -/
def inputHeading (coloured : Bool) (input : Path) : String :=
  painted coloured "2" ("// " ++ input.text)

/-- The line that reports a written listing. -/
def writtenLine (file : RenderedFile) : String :=
  "Parsed tree written to: " ++ file.output.text

/-- The line that reports an input that failed. -/
def complaintLine (coloured : Bool) (input : Path) (failure : Failure) : String :=
  "  " ++ painted coloured "31" "•" ++ " " ++ input.text ++ ": " ++ failure.message

/-- List inputs to the standard output, up to the first that fails.  `several` says
whether each gets a heading, `first` whether no listing stands above. -/
def printListings (grammars : Grammars) (coloured several : Bool) (settings : Settings)
    (language : Option Language) (first : Bool) : List Path → Work Report
  | [] => return {}
  | input :: rest => do
      match ← (Work.renderFile grammars (settings.inputPath input) language).attempt with
      | .error failure => return { failure }
      | .ok (_, lines) =>
          let above := (if first then [] else [""])
            ++ (if several then [inputHeading coloured input] else [])
          let below ← printListings grammars coloured several settings language false rest
          return { below with printed := above ++ joinLines lines :: below.printed }

/-- What is reported about the outcomes of a batch.  The failure of a lone input is the
failure of the run. -/
def reportOutcomes (coloured : Bool) (outcomes : List Outcome) : Report :=
  let failures := outcomes.filterMap fun (o : Outcome) =>
    match o.result with
    | .ok _ => none
    | .error failure => some (o.requested, failure)
  let printed := outcomes.filterMap fun (o : Outcome) =>
    match o.result with
    | .ok file => some (writtenLine file)
    | .error _ => none
  match failures with
  | [] => { printed }
  | (_, failure) :: _ =>
      if outcomes.length = 1 then { printed, failure }
      else
        { printed
          complaints := failures.map fun (f : Path × Failure) => complaintLine coloured f.1 f.2
          failure := Failure.batchFailed failures.length outcomes.length }

/-- The settings of a run and the language that it is told to use. -/
def prepare (base : Path) (a : Arguments) : Work (Settings × Option Language) := do
  let settings := (← Settings.load base a.config).withOverrides base a.inputsDir a.outputsDir
  Work.report .debug "tree_builder::cli::render" "Resolved configuration"
    [("config", settings.shown)]
  match a.language with
  | none => return (settings, none)
  | some name => return (settings, some (← MonadExcept.ofExcept (Language.ofName name)))

/-- List the inputs that the arguments name. -/
def listInputs (grammars : Grammars) (coloured : Bool) (base : Path) (a : Arguments) :
    Work Report := do
  match ← (prepare base a).attempt with
  | .error failure => return { failure }
  | .ok (settings, language) =>
      if a.stdout then
        Work.withOwnParser
          (printListings grammars coloured (1 < a.inputs.length) settings language true a.inputs)
      else
        return reportOutcomes coloured
          (← Work.renderBatch grammars settings a.inputs language)

/-! ## The whole run -/

/-- Lines, each of them ended. -/
def endedLines (lines : List String) : String :=
  String.join (lines.map (· ++ "\n"))

/-- The lines about the failure that a run ends with. -/
def failureLines (coloured : Bool) (failure : Failure) : List String :=
  (painted coloured "1;31" "error" ++ ": " ++ failure.message)
    :: failure.causes.map fun cause =>
      "  " ++ painted coloured "2" "caused by" ++ ": " ++ cause

/-- The text that a usage fault is reported with. -/
def usageText (fault : UsageFault) : String :=
  "error: " ++ fault.message ++ "\n\n" ++ usage false
    ++ "\n\nFor more information, try '--help'.\n"

/-- The exit code for wrong arguments. -/
def usageCode : Nat := 1

/-- The output of a run that ends before any listing. -/
def stopOutput (env : Environment) : Stop → Output
  | .fault fault => { code := usageCode, stderr := usageText fault }
  | .help => { code := 0, stdout := helpText env.coloursHelp }
  | .version => { code := 0, stdout := versionText }

/-- The output of a run with the given arguments, from its report and its log. -/
def reportOutput (env : Environment) (time : String) (a : Arguments) (report : Report)
    (log : List Log.Event) : Output :=
  let filter := env.logFilter a.verbosity
  let logLines := (log.filter filter.shows).map (Log.Event.line env.coloursLog time)
  let coloured := env.coloursMessages
  let failure := (report.failure.map (failureLines coloured)).getD []
  { code := (report.failure.map Failure.exitCode).getD 0
    stdout := endedLines report.printed
    stderr := endedLines (logLines ++ report.complaints ++ failure) }

/-- Run the program on a disk, in its working directory.  A disk always has one, so that it
cannot be found is not a way in which a run ends.  `time` is what log lines show as the
time. -/
def run (grammars : Grammars) (env : Environment) (time : String) (arguments : List Bytes)
    (disk : Disk) : Output × Disk :=
  match Arguments.ofBytes arguments with
  | .error stop => (stopOutput env stop, disk)
  | .ok a =>
      let base := Disk.pathOf disk.workingDirectory
      let (outcome, after) :=
        (listInputs grammars env.coloursMessages base a).runIn { disk }
      let report := match outcome with
        | .ok report => report
        | .error failure => { failure }
      (reportOutput env time a report after.log.toList, after.disk)

end TreeListing.CommandLine
