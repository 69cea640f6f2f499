import TreeListing.Tree.Basic

/-!
# Lines of a listing

A node is shown when it is named or missing.  Its line holds the indentation, the
field on its edge, its label and its range; nothing in it is escaped.  A listing is
kept as text by joining its lines with line feeds, with none after the last.
-/

namespace TreeListing

/-- How a shown node is named on its line. -/
inductive Label where
  /-- A named node, shown by its kind. -/
  | named (kind : String)
  /-- A node put in by error recovery; an anonymous kind is quoted. -/
  | missing (kind : String) (named : Bool)
deriving DecidableEq, Repr

/-- The written form of a label. -/
def Label.text : Label → String
  | .named kind => kind
  | .missing kind true => "MISSING " ++ kind
  | .missing kind false => "MISSING \"" ++ kind ++ "\""

/-- The label of a node, or nothing for a node that is neither missing nor named. -/
def Node.label? (n : Node) : Option Label :=
  if n.missing then some (.missing n.kind n.named)
  else if n.named then some (.named n.kind)
  else none

/-- Whether a node gets a line of its own. -/
def Node.shown (n : Node) : Bool :=
  n.missing || n.named

theorem Node.isSome_label? (n : Node) : n.label?.isSome = n.shown := by
  cases hm : n.missing <;> cases hn : n.named <;> simp [label?, shown, hm, hn]

/-- The parts of one line. -/
structure Line where
  /-- Tree depth; one unit of indentation for each level. -/
  level : Nat
  field : Option String
  label : Label
  start : Point
  stop : Point
deriving DecidableEq, Repr

namespace Line

/-- Two spaces for each level. -/
def indentation (level : Nat) : String :=
  String.ofList (List.replicate (2 * level) ' ')

/-- A field stands before its node's label, followed by a colon and a space. -/
def fieldText : Option String → String
  | none => ""
  | some field => field ++ ": "

/-- The written form of a line. -/
def text (l : Line) : String :=
  indentation l.level ++ fieldText l.field ++ l.label.text
    ++ " " ++ l.start.text ++ " - " ++ l.stop.text

/-- The first level whose indentation no string can hold. -/
def levelLimit : Nat :=
  Nat.pow 2 62

/-- The written form of a line, or nothing when its indentation fits in no string. -/
def text? (l : Line) : Option String :=
  if l.level < levelLimit then some l.text else none

end Line

/-- The line of a shown node at a level; nothing for any other node. -/
def Node.line? (n : Node) (level : Nat) : Option Line :=
  n.label?.map fun label => ⟨level, n.field, label, n.start, n.stop⟩

/-- Lines as one text: separated by line feeds, with none after the last. -/
def joinLines (lines : List String) : String :=
  "\n".intercalate lines

end TreeListing
