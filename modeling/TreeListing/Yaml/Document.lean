import TreeListing.Yaml.Event.Grammar

/-!
# Documents

The nodes of a text's first document, in the order of its events.  Anchors are numbered
and aliases refer to numbers.  The number of an anchor is the count of the names seen
before it, so a name that comes again does not add to the count, and an anchor may take
over the number of an earlier one together with its aliases.
-/

namespace TreeListing.Yaml

/-- What an item of a document is. -/
inductive ItemKind where
  | scalar (tag : Option Bytes) (text : List Char) (plain : Bool)
  /-- A reference to the anchor with this number. -/
  | reference (anchor : Nat)
  | sequenceStart
  | sequenceEnd
  | mappingStart
  | mappingEnd
deriving DecidableEq, Repr

/-- An item of a document and its place. -/
structure Item where
  kind : ItemKind
  mark : Mark
deriving DecidableEq, Repr

/-- A document. -/
structure Document where
  items : List Item := []
  /-- The item that each anchor number refers to, the one given last first. -/
  anchors : List (Nat × Item) := []
  /-- The fault that ended the document, if there is one. -/
  fault : Option Fault := none
deriving DecidableEq, Repr

namespace Document

/-- The item that an anchor number refers to. -/
def anchored? (d : Document) (number : Nat) : Option Item :=
  d.anchors.lookup number

/-- With an item at the front. -/
def push (item : Item) (d : Document) : Document :=
  { d with items := item :: d.items }

/-- The document that some events begin, and the events after it.  `names` gives the
numbers of the anchors so far, and `anchors` the items that they refer to. -/
def ofEvents (names : List (List Char × Nat)) (anchors : List (Nat × Item)) :
    Events → Document × Events
  | .ended => ({ anchors }, .ended)
  | .failed fault => ({ anchors, fault := some fault }, .failed fault)
  | .next ⟨kind, mark⟩ rest =>
      let node (properties : Properties) (kind : ItemKind) : Document × Events :=
        let item : Item := ⟨kind, mark⟩
        let (document, rest) := match properties.anchor with
          | none => ofEvents names anchors rest
          | some name =>
              let number := names.length
              let others := names.filter fun (n : List Char × Nat) => n.1 != name
              ofEvents ((name, number) :: others) ((number, item) :: anchors) rest
        (document.push item, rest)
      match kind with
      | .documentStart => ofEvents names anchors rest
      | .documentEnd => ({ anchors }, rest)
      | .reference name =>
          match names.lookup name with
          | some number =>
              let (document, rest) := ofEvents names anchors rest
              (document.push ⟨.reference number, mark⟩, rest)
          | none => ({ anchors, fault := some (.unknownAnchor mark) }, rest)
      | .scalar properties text plain => node properties (.scalar properties.tag text plain)
      | .sequenceStart properties => node properties .sequenceStart
      | .sequenceEnd => node {} .sequenceEnd
      | .mappingStart properties => node properties .mappingStart
      | .mappingEnd => node {} .mappingEnd

/-- Whether there are no events. -/
def isOver : Events → Bool
  | .ended => true
  | _ => false

/-- The first document of a text, and whether it is the only one. -/
def read (text : String) : Document × Bool :=
  let (document, rest) := ofEvents [] [] (events (scan text))
  (document, isOver rest)

end Document

end TreeListing.Yaml
