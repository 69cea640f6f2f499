/-!
# Places in a YAML text

A mark counts the characters before a place, the lines before it and the characters
before it on its line.  Shown to a reader, lines and columns count from one.
-/

namespace TreeListing.Yaml

/-- A place in a text, all counts from zero. -/
structure Mark where
  index : Nat := 0
  line : Nat := 0
  column : Nat := 0
deriving DecidableEq, Repr, Inhabited

namespace Mark

/-- The place `n` characters further on the same line. -/
def forward (m : Mark) (n : Nat) : Mark :=
  ⟨m.index + n, m.line, m.column + n⟩

/-- The place after a line break of `width` characters. -/
def nextLine (m : Mark) (width : Nat) : Mark :=
  ⟨m.index + width, m.line + 1, 0⟩

/-- Whether the place is the start of the text. -/
def atStart (m : Mark) : Bool :=
  m.line == 0 && m.column == 0

/-- The written form, lines and columns counted from one. -/
def text (m : Mark) : String :=
  "line " ++ toString (m.line + 1) ++ " column " ++ toString (m.column + 1)

/-- The place as the end of a message; the start of the text goes without saying. -/
def suffix (m : Mark) : String :=
  if m.atStart then "" else " at " ++ m.text

end Mark

end TreeListing.Yaml
