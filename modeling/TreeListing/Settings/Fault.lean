import TreeListing.Path
import TreeListing.Yaml.Fault

/-!
# Why settings cannot be read
-/

namespace TreeListing

/-- The entries that settings may have. -/
inductive SettingsField where
  | inputs
  | outputs
deriving DecidableEq, Repr

/-- The key of an entry. -/
def SettingsField.name : SettingsField → String
  | inputs => "inputs_dir"
  | outputs => "outputs_dir"

/-- A reason why settings cannot be read. -/
inductive SettingsFault where
  /-- A settings file that was asked for is not there. -/
  | noFile (path : Path)
  /-- The settings in a file cannot be read. -/
  | inFile (path : Path) (fault : SettingsFault)
  /-- The text is not YAML. -/
  | yaml (fault : Yaml.Fault)
  /-- A second document. -/
  | moreDocuments
  /-- Something that is no mapping. -/
  | notMapping (found : String) (mark : Yaml.Mark)
  /-- Something whose tag demands what its text is not. -/
  | badScalar (text demanded : String) (mark : Yaml.Mark)
  /-- A key that is no text. -/
  | badKey (found : String) (mark : Yaml.Mark)
  /-- A key that is not the name of an entry. -/
  | unknownKey (key : String) (mark : Yaml.Mark)
  /-- An entry that is given twice, in the mapping at the mark. -/
  | repeatedKey (field : SettingsField) (mark : Yaml.Mark)
  /-- The value of an entry that is no text. -/
  | badValue (key found : String) (mark : Yaml.Mark)
  /-- Any other reason, in words. -/
  | other (words : String)
deriving DecidableEq, Repr

namespace SettingsFault

/-- A name in the quotes that keys are shown in. -/
def keyQuoted (name : String) : String :=
  "\x60" ++ name ++ "\x60"

/-- What is said before the reason. -/
def heading : String :=
  "configuration error: "

/-- The written form of a reason. -/
def message : SettingsFault → String
  | noFile path => "config file not found: " ++ path.text
  | inFile path fault => path.text ++ ": " ++ heading ++ fault.message
  | yaml fault => fault.message
  | moreDocuments =>
      "deserializing from YAML containing more than one document is not supported"
  | notMapping found mark =>
      "invalid type: " ++ found ++ ", expected struct Config" ++ mark.suffix
  | badScalar text demanded mark =>
      "invalid value: string " ++ Text.quoted text ++ ", expected " ++ demanded ++ mark.suffix
  | badKey found mark =>
      "invalid type: " ++ found ++ ", expected field identifier" ++ mark.suffix
  | unknownKey key mark =>
      "unknown field " ++ keyQuoted key ++ ", expected "
        ++ keyQuoted SettingsField.inputs.name ++ " or "
        ++ keyQuoted SettingsField.outputs.name ++ mark.suffix
  | repeatedKey field mark => "duplicate field " ++ keyQuoted field.name ++ mark.suffix
  | badValue key found mark =>
      key ++ ": invalid type: " ++ found ++ ", expected path string" ++ mark.suffix
  | other words => words

end SettingsFault

end TreeListing
