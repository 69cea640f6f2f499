import TreeListing.Settings.Reader
import TreeListing.Workspace

/-!
# Finding settings

Settings are looked for in a file that is asked for, which then has to be there, or
else in a file with a fixed name in the base directory, which need not be there.
Relative directories in a file are taken from the directory that the file is in.
-/

namespace TreeListing.Settings

/-- The name of the settings file in a base directory. -/
def fileName : Path :=
  Path.ofText "tree-builder.yaml"

/-- The target of events about settings. -/
def logTarget : String := "tree_builder::config"

/-- The settings in a file, with relative directories taken from where it is. -/
def loadFile (base path : Path) : Work Settings := do
  match (← Work.disk).readText path with
  | .error cause => throw (.read path cause)
  | .ok text =>
      match Settings.read text with
      | .error fault => throw (.settings (.inFile path fault))
      | .ok settings =>
          Work.report .debug logTarget "Loaded config file" [("path", path.text)]
          return settings.resolvedAgainst (path.parent?.getD base)

/-- The settings for a base directory, from the given file if there is one. -/
def load (base : Path) (given : Option Path) : Work Settings := do
  let path := base.join (given.getD fileName)
  if (← Work.disk).isFile path then loadFile base path
  else if given.isSome then throw (.settings (.noFile path))
  else
    Work.report .debug logTarget "No config file, using defaults" [("base", base.text)]
    return Settings.default.resolvedAgainst base

end TreeListing.Settings
