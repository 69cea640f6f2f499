/-!
# Points of a source text

A point names a place in a source text by row and column, both counted from zero.
Points are ordered by row first and by column within a row, which is the order in
which the text is read.
-/

namespace TreeListing

/-- A zero-based row and a zero-based column within it. -/
structure Point where
  row : Nat
  column : Nat
deriving DecidableEq, Repr, Inhabited

namespace Point

/-- Reading order: an earlier row, or the same row and no later column. -/
protected def le (p q : Point) : Prop :=
  p.row < q.row ∨ p.row = q.row ∧ p.column ≤ q.column

instance : LE Point := ⟨Point.le⟩

theorem le_iff {p q : Point} :
    p ≤ q ↔ p.row < q.row ∨ p.row = q.row ∧ p.column ≤ q.column :=
  Iff.rfl

instance (p q : Point) : Decidable (p ≤ q) :=
  decidable_of_iff' _ le_iff

/-- The written form `[row, column]`. -/
def text (p : Point) : String :=
  "[" ++ toString p.row ++ ", " ++ toString p.column ++ "]"

/-- The points in reading order; equal points keep their number. -/
def sort (points : List Point) : List Point :=
  points.mergeSort fun p q => decide (p ≤ q)

end Point

end TreeListing
