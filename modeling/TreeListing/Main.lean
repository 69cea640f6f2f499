import TreeListing.CommandLine.Run

/-!
# The program

Looks up on the real disk what a run may ask for, does the run, and writes back what it
has changed.  No grammar is linked in here: a program with grammars calls `program` with
them.
-/

namespace TreeListing.CommandLine

/-- The location that an absolute path names if none of its parts is a link. -/
def plainLocation (p : Path) : Location :=
  (Path.split p.bytes).foldl
    (fun here part =>
      if Path.inert part then here else if part = Path.up then here.dropLast else here ++ [part])
    []

/-- What is at the end of a path on the real disk. -/
def look (p : Path) : IO (Option Entry) := do
  match Text.ofBytes? p.bytes with
  | none => return none
  | some name =>
      try
        return some (.file (← IO.FS.readBinFile name).toList)
      catch e =>
        match e with
        | .inappropriateType .. => return some .directory
        | _ => return none

/-- A disk with what is at the end of some paths and on the way there. -/
def lookAll (d : Disk) (paths : List Path) : IO Disk := do
  let mut d := d
  for p in paths.flatMap Path.ancestors do
    if let some entry := ← look p then
      d := d.put (plainLocation p) entry
  return d

/-- Write back to the real disk what is new or changed, outer directories first. -/
def writeBack (before after : Disk) : IO Unit := do
  let changed := after.entries.filter fun (e : Location × Entry) => before.get? e.1 != some e.2
  for (location, entry) in changed.mergeSort fun a b => decide (a.1.length ≤ b.1.length) do
    if let some name := Text.ofBytes? (Disk.pathOf location).bytes then
      match entry with
      | .directory => IO.FS.createDirAll name
      | .file content => IO.FS.writeBinFile name ⟨content.toArray⟩
      | .link _ => pure ()

/-- The paths that a run with these settings may ask for. -/
def pathsOf (a : Arguments) (settings : Settings) : List Path :=
  a.inputs.map settings.inputPath ++ a.inputs.map settings.outputPath

/-- The disk that a run with these arguments needs. -/
def gather (base : Path) (arguments : List Bytes) : IO Disk := do
  let empty : Disk := { workingDirectory := plainLocation base }
  match Arguments.ofBytes arguments with
  | .error _ => return empty
  | .ok a =>
      let d ← lookAll empty [base.join (a.config.getD Settings.fileName)]
      match ((prepare base { a with language := none }).runIn { disk := d }).1 with
      | .error _ => return d
      | .ok (settings, _) => lookAll d (pathsOf a settings)

/-- The program with some grammars. -/
def program (grammars : Grammars) (args : List String) : IO UInt32 := do
  let arguments := args.map Text.bytes
  let noColour ← IO.getEnv "NO_COLOR"
  let forceColour ← IO.getEnv "CLICOLOR_FORCE"
  let logFilter ← IO.getEnv "RUST_LOG"
  let env : Environment := fun name =>
    if name == "NO_COLOR" then noColour
    else if name == "CLICOLOR_FORCE" then forceColour
    else if name == "RUST_LOG" then logFilter
    else none
  let time := toString (← IO.monoMsNow) ++ "ms"
  let before ← gather (Path.ofText (← IO.currentDir).toString) arguments
  let (output, after) := run grammars env time arguments before
  writeBack before after
  IO.print output.stdout
  IO.eprint output.stderr
  return UInt32.ofNat output.code

/-- No grammar for any language. -/
def noGrammars : Grammars :=
  fun _ => .error "no grammar is linked in"

end TreeListing.CommandLine

/-- The program without grammars. -/
def main (args : List String) : IO UInt32 :=
  TreeListing.CommandLine.program TreeListing.CommandLine.noGrammars args
