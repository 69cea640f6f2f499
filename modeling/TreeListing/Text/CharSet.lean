/-!
# Sets of characters

A set of characters is given by ranges of code points, both ends included.
-/

namespace TreeListing.Text

/-- Ranges of code points in ascending order. -/
structure CharSet where
  ranges : List (Nat × Nat)

/-- Whether a character lies in one of the ranges. -/
def CharSet.contains (s : CharSet) (c : Char) : Bool :=
  s.ranges.any fun r => decide (r.1 ≤ c.toNat) && decide (c.toNat ≤ r.2)

end TreeListing.Text
