import TreeListing.Settings.Basic
import TreeListing.Settings.Fault
import TreeListing.Text.Blank
import TreeListing.Yaml.Document
import TreeListing.Yaml.Schema

/-!
# Reading settings

Settings are a YAML mapping from the names of the entries to directories.  An entry
that is left out keeps its default.  The items of the text are read in order, so the
first thing that is wrong is reported, be it the YAML or what it says.
-/

namespace TreeListing

open Yaml (Document Item ItemKind Mark)

/-- The entries that a text gives. -/
structure SettingsEntries where
  inputs : Option String := none
  outputs : Option String := none
deriving DecidableEq, Repr, Inhabited

namespace SettingsEntries

/-- The value given for an entry. -/
def get? (e : SettingsEntries) : SettingsField → Option String
  | .inputs => e.inputs
  | .outputs => e.outputs

/-- With a value for an entry. -/
def put (e : SettingsEntries) : SettingsField → String → SettingsEntries
  | .inputs, value => { e with inputs := value }
  | .outputs, value => { e with outputs := value }

/-- The settings with these entries, and the defaults for those left out. -/
def settings (e : SettingsEntries) : Settings :=
  ⟨(e.inputs.map Path.ofText).getD Settings.default.inputs,
    (e.outputs.map Path.ofText).getD Settings.default.outputs⟩

/-! ## Items -/

/-- The item that stands for this one: for an alias what it refers to. -/
def target (d : Document) (item : Item) : Item :=
  match item.kind with
  | .reference anchor => (d.anchored? anchor).getD item
  | _ => item

/-- What an item is, for items that are no scalars. -/
def found : ItemKind → String
  | .sequenceStart => "sequence"
  | _ => "map"

/-- The text of a scalar, or else what the item is and where. -/
def scalarText (d : Document) (item : Item) : Except (String × Mark) String :=
  match target d item with
  | ⟨.scalar _ text _, _⟩ => .ok (String.ofList text)
  | ⟨kind, mark⟩ => .error (found kind, mark)

/-- The entry that a key names. -/
def readKey (d : Document) (key : Item) : Except SettingsFault SettingsField :=
  match scalarText d key with
  | .error (kind, mark) => .error (.badKey kind mark)
  | .ok name =>
      if name = SettingsField.inputs.name then .ok .inputs
      else if name = SettingsField.outputs.name then .ok .outputs
      else .error (.unknownKey name (target d key).mark)

/-- How a key is shown before a fault in its value. -/
def shownKey (key : Item) : String :=
  match key.kind with
  | .scalar _ text _ => String.ofList text
  | _ => "?"

/-- The directory that a value gives. -/
def readValue (d : Document) (key value : Item) : Except SettingsFault String :=
  match scalarText d value with
  | .error (kind, mark) => .error (.badValue (shownKey key) kind mark)
  | .ok text => .ok text

/-- What ends a document whose items are used up: its fault. -/
def afterItems (d : Document) (e : SettingsEntries) : Except SettingsFault SettingsEntries :=
  match d.fault with
  | some fault => .error (.yaml fault)
  | none => .ok e

/-- Read the entries of the mapping that began at `start`, given those read so far. -/
def readMapping (d : Document) (start : Mark) (e : SettingsEntries) :
    List Item → Except SettingsFault SettingsEntries
  | [] => afterItems d e
  | key :: rest =>
      if key.kind = .mappingEnd then afterItems d e
      else do
        let field ← readKey d key
        if (e.get? field).isSome then .error (.repeatedKey field start)
        else match rest with
          | [] => afterItems d e
          | value :: rest => do
              let text ← readValue d key value
              readMapping d start (e.put field text) rest

/-- Read the entries of a document, which has to be a mapping or empty. -/
def ofDocument (d : Document) : Except SettingsFault SettingsEntries :=
  match d.items with
  | [] => afterItems d {}
  | root :: rest =>
      match root.kind with
      | .mappingStart => readMapping d root.mark {} rest
      | .scalar tag text plain =>
          if plain && text.isEmpty then afterItems d {}
          else match Yaml.ScalarValue.ofScalar tag text plain with
            | .ok value => .error (.notMapping value.shown root.mark)
            | .error demanded => .error (.badScalar (String.ofList text) demanded root.mark)
      | kind => .error (.notMapping (found kind) root.mark)

/-- Read the entries of a text. -/
def read (text : String) : Except SettingsFault SettingsEntries :=
  if Text.isBlank text then .ok {}
  else do
    let (document, only) := Document.read text
    let entries ← ofDocument document
    if only then .ok entries else .error .moreDocuments

end SettingsEntries

/-- Read the settings of a text. -/
def Settings.read (text : String) : Except SettingsFault Settings :=
  SettingsEntries.settings <$> SettingsEntries.read text

end TreeListing
