import TreeListing.Yaml.Token.Basic

/-!
# Events

The structure of a YAML text, flattened: collections are bracketed by a start and an
end, and between stand their nodes in order, in a mapping keys and values by turns.
-/

namespace TreeListing.Yaml

/-- What may stand before a node. -/
structure Properties where
  anchor : Option (List Char) := none
  /-- The tag in full. -/
  tag : Option Bytes := none
deriving DecidableEq, Repr, Inhabited

/-- What an event is. -/
inductive EventKind where
  | documentStart
  | documentEnd
  | reference (name : List Char)
  | scalar (properties : Properties) (text : List Char) (plain : Bool)
  | sequenceStart (properties : Properties)
  | sequenceEnd
  | mappingStart (properties : Properties)
  | mappingEnd
deriving DecidableEq, Repr

/-- An event and its place. -/
structure Event where
  kind : EventKind
  mark : Mark
deriving DecidableEq, Repr

/-- A scalar that is left out. -/
def Event.empty (mark : Mark) (properties : Properties) : Event :=
  ⟨.scalar properties [] true, mark⟩

/-- The events of a text in order: up to its end or up to the first fault. -/
inductive Events where
  | ended
  | failed (fault : Fault)
  | next (event : Event) (rest : Events)
deriving DecidableEq, Repr

end TreeListing.Yaml
