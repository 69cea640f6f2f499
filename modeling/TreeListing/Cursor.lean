import TreeListing.Tree.Basic

/-!
# Cursors

A cursor stands at one node of a tree and moves to the first child, the next sibling
or the parent.  It keeps the positions from the node it stands at up to the topmost
one it may reach; a move that has no target is no move.

Two kinds of start are built here.  A *confined* cursor never leaves the subtree it
starts at and sees no field on the edge above it.  A cursor *within* a tree may
wander through the whole tree, wherever it starts and whatever depth it reports there.
-/

namespace TreeListing

/-- A node in place: what lies below it and to its right. -/
structure Position where
  node : Node
  children : Forest
  siblings : Forest
deriving DecidableEq, Repr, Inhabited

/-- A place in a tree together with the way up. -/
structure Cursor where
  here : Position
  /-- The positions above, nearest first. -/
  above : List Position
  /-- The depth that the cursor reports. -/
  depth : Nat
deriving DecidableEq, Repr, Inhabited

namespace Cursor

/-- The node that the cursor stands at. -/
def node (c : Cursor) : Node :=
  c.here.node

/-- The subtree that the cursor stands at. -/
def subtree (c : Cursor) : Tree :=
  ⟨c.here.node, c.here.children⟩

/-- Move to the first child. -/
def firstChild? (c : Cursor) : Option Cursor :=
  match c.here.children with
  | .nil => none
  | .cons node children siblings =>
      some ⟨⟨node, children, siblings⟩, c.here :: c.above, c.depth + 1⟩

/-- Move to the next sibling. -/
def nextSibling? (c : Cursor) : Option Cursor :=
  match c.here.siblings with
  | .nil => none
  | .cons node children siblings =>
      some ⟨⟨node, children, siblings⟩, c.above, c.depth⟩

/-- Move to the parent. -/
def parent? (c : Cursor) : Option Cursor :=
  match c.above with
  | [] => none
  | p :: above => some ⟨p, above, c.depth - 1⟩

/-- The child with the given index: the first child, then as many steps to the right. -/
def child? (c : Cursor) : Nat → Option Cursor
  | 0 => c.firstChild?
  | i + 1 => c.child? i >>= nextSibling?

/-- A cursor at a tree's root that cannot leave the tree and sees no field there. -/
def confinedTo (t : Tree) : Cursor :=
  ⟨⟨{ t.node with field := none }, t.children, .nil⟩, [], 0⟩

/-- A cursor at a tree's root that sees the root's own field. -/
def atRoot (t : Tree) : Cursor :=
  ⟨⟨t.node, t.children, .nil⟩, [], 0⟩

/-- A cursor at the node that the child indices lead to.  It reports the given depth
there and can move through the whole tree. -/
def within? (t : Tree) (path : List Nat) (depth : Nat) : Option Cursor :=
  (path.foldlM child? (atRoot t)).map fun c => { c with depth }

end Cursor

end TreeListing
