import TreeListing.Path

/-!
# Settings

Where input files are looked up and where listings go.  The directories may be given
relative to another one and are resolved by joining.
-/

namespace TreeListing

/-- The two directories. -/
structure Settings where
  inputs : Path
  outputs : Path
deriving DecidableEq, Repr

namespace Settings

/-- The directories that are used when none are given. -/
def default : Settings :=
  ⟨Path.ofText "inputs", Path.ofText "outputs"⟩

/-- The end of the name of a listing. -/
def outputSuffix : String := "_tree.txt"

/-- The settings with relative directories taken from `base`. -/
def resolvedAgainst (s : Settings) (base : Path) : Settings :=
  ⟨base.join s.inputs, base.join s.outputs⟩

/-- The settings with the given directories, taken from `base`, in place of their own. -/
def withOverrides (s : Settings) (base : Path) (inputs outputs : Option Path) : Settings :=
  ⟨(inputs.map base.join).getD s.inputs, (outputs.map base.join).getD s.outputs⟩

/-- Where an input file is. -/
def inputPath (s : Settings) (input : Path) : Path :=
  s.inputs.join input

/-- The name of the listing of an input file. -/
def outputName (input : Path) : String :=
  (input.stem?.map Text.lossy).getD "" ++ outputSuffix

/-- Where the listing of an input file goes. -/
def outputPath (s : Settings) (input : Path) : Path :=
  s.outputs.join (Path.ofText (outputName input))

/-- The settings as they are shown in log messages. -/
def shown (s : Settings) : String :=
  "Config \x7b inputs_dir: " ++ s.inputs.quoted ++ ", outputs_dir: " ++ s.outputs.quoted
    ++ " \x7d"

end Settings

end TreeListing
