import TreeListing.Text.CharSet

/-!
# Blank text

The property White_Space, and texts that hold nothing else.
-/

namespace TreeListing.Text

/-- The characters with the property White_Space. -/
def whiteSpace : CharSet :=
  ⟨[(0x9, 0xD), (0x20, 0x20), (0x85, 0x85), (0xA0, 0xA0), (0x1680, 0x1680),
    (0x2000, 0x200A), (0x2028, 0x2029), (0x202F, 0x202F), (0x205F, 0x205F),
    (0x3000, 0x3000)]⟩

/-- Whether a text is empty or holds white space only. -/
def isBlank (s : String) : Bool :=
  s.toList.all whiteSpace.contains

end TreeListing.Text
