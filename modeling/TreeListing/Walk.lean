import TreeListing.Cursor
import TreeListing.Line

/-!
# The walk

A walk lists a tree with no memory beyond its cursor, the listing so far and a level
counter.  Each turn it stands at a node for the first time or comes back to it.  For
the first time it opens the node's row and descends; coming back it moves on to the
next sibling, else to the parent, else it ends.  A row is opened in one turn and joins
the listing only when the next row is opened or the walk ends.

`turnsLeft` counts the turns that a walk still needs: two for each node not yet
arrived at, one for the node it comes back to, and one for each node above.
`turnsLeft_turn` says that a turn uses up exactly one of them, so every walk ends.
-/

namespace TreeListing

/-- A walk between two turns. -/
structure Walk where
  cursor : Cursor
  /-- Whether the cursor comes back to its node. -/
  returning : Bool := false
  /-- The finished rows. -/
  rows : Array String := #[]
  /-- The row opened last; empty when none is pending. -/
  row : String := ""
  /-- Whether the pending row may join the listing. -/
  rowComplete : Bool := false
  level : Nat := 0
deriving Repr

/-- What a turn leads to. -/
inductive Turn where
  | more (walk : Walk)
  | done (walk : Walk)
deriving Repr

namespace Walk

/-- The pending row joins the listing if it is complete and not empty. -/
def flush (w : Walk) : Walk :=
  if w.rowComplete && !w.row.isEmpty then
    { w with rows := w.rows.push w.row, row := "", rowComplete := false }
  else w

/-- Open the row of the node that the cursor stands at, if it has one. -/
def openRow (w : Walk) : Walk :=
  match w.cursor.node.line? w.level with
  | none => w
  | some line => { w.flush with row := line.text, rowComplete := true }

/-- A turn at a node seen for the first time: open its row and descend, or turn round
where there are no children. -/
def arrive (w : Walk) : Walk :=
  let w := w.openRow
  match w.cursor.firstChild? with
  | some below => { w with cursor := below, level := w.level + 1 }
  | none => { w with returning := true }

/-- A turn at a node that the walk comes back to: on to the next sibling, else up to
the parent, else the end.  The level never falls below zero. -/
def comeBack (w : Walk) : Turn :=
  let w := if w.cursor.node.shown then { w with rowComplete := true } else w
  match w.cursor.nextSibling? with
  | some right => .more { w with cursor := right, returning := false }
  | none =>
      match w.cursor.parent? with
      | some up => .more { w with cursor := up, level := w.level - 1 }
      | none => .done w

/-- One turn. -/
def turn (w : Walk) : Turn :=
  if w.returning then w.comeBack else .more w.arrive

/-- The turns needed after the subtree of a node is finished: two for each node to its
right, then one for each node above and two for each node to the right of those. -/
def turnsAfter (siblings : Forest) : List Position → Nat
  | [] => 2 * siblings.size
  | p :: above => 2 * siblings.size + 1 + turnsAfter p.siblings above

/-- The turns that a walk still needs. -/
def turnsLeft (w : Walk) : Nat :=
  let after := turnsAfter w.cursor.here.siblings w.cursor.above
  if w.returning then 1 + after else 2 * w.cursor.subtree.size + after

@[simp] theorem cursor_flush (w : Walk) : w.flush.cursor = w.cursor := by
  unfold flush
  split <;> rfl

@[simp] theorem returning_flush (w : Walk) : w.flush.returning = w.returning := by
  unfold flush
  split <;> rfl

@[simp] theorem cursor_openRow (w : Walk) : w.openRow.cursor = w.cursor := by
  unfold openRow
  split <;> simp

@[simp] theorem returning_openRow (w : Walk) : w.openRow.returning = w.returning := by
  unfold openRow
  split <;> simp

/-- Arriving at a node uses up one turn. -/
theorem turnsLeft_arrive {w : Walk} (h : w.returning = false) :
    w.arrive.turnsLeft + 1 = w.turnsLeft := by
  obtain ⟨cursor, returning, rows, row, rowComplete, level⟩ := w
  subst h
  obtain ⟨⟨node, children, siblings⟩, above, depth⟩ := cursor
  cases children with
  | nil =>
      simp [arrive, turnsLeft, Cursor.firstChild?, Cursor.subtree, Tree.size,
        Forest.size]
      omega
  | cons n c s =>
      simp [arrive, turnsLeft, Cursor.firstChild?, Cursor.subtree, Tree.size,
        Forest.size, turnsAfter]
      omega

/-- Coming back to a node uses up one turn. -/
theorem turnsLeft_comeBack {w next : Walk} (h : w.returning = true)
    (hnext : w.comeBack = .more next) : next.turnsLeft + 1 = w.turnsLeft := by
  obtain ⟨cursor, returning, rows, row, rowComplete, level⟩ := w
  subst h
  obtain ⟨⟨node, children, siblings⟩, above, depth⟩ := cursor
  cases siblings with
  | cons n c s =>
      cases hs : node.shown <;>
        simp [comeBack, Cursor.node, hs, Cursor.nextSibling?] at hnext <;> subst hnext <;>
        cases above <;>
        simp [turnsLeft, turnsAfter, Cursor.subtree, Tree.size, Forest.size] <;> omega
  | nil =>
      cases above with
      | nil =>
          cases hs : node.shown <;>
            simp [comeBack, Cursor.node, hs, Cursor.nextSibling?, Cursor.parent?] at hnext
      | cons p above =>
          cases hs : node.shown <;>
            simp [comeBack, Cursor.node, hs, Cursor.nextSibling?, Cursor.parent?] at hnext <;>
            subst hnext <;> simp [turnsLeft, turnsAfter, Forest.size] <;> omega

/-- A turn uses up exactly one of the turns left. -/
theorem turnsLeft_turn {w next : Walk} (h : w.turn = .more next) :
    next.turnsLeft + 1 = w.turnsLeft := by
  cases hr : w.returning with
  | false =>
      simp [turn, hr] at h
      subst h
      exact turnsLeft_arrive hr
  | true =>
      simp [turn, hr] at h
      exact turnsLeft_comeBack hr h

/-- Take turns until the walk ends. -/
def run (w : Walk) : Walk :=
  match h : w.turn with
  | .done last => last
  | .more next =>
      have : next.turnsLeft < w.turnsLeft := by
        have := turnsLeft_turn h
        omega
      run next
termination_by w.turnsLeft

/-- The walk that starts at a cursor. -/
def start (c : Cursor) : Walk :=
  { cursor := c }

/-- The rows of a walk that has ended, the pending one included. -/
def finish (w : Walk) : List String :=
  w.flush.rows.toList

end Walk

end TreeListing
