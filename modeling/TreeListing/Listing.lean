import TreeListing.Walk

/-!
# Listings

The listing of a forest, said once by recursion: a node's own line if it has one, then
the listing of its children one level deeper, then that of the trees to its right.
Beside it stand the operations that list a tree by walking a cursor over it.
-/

namespace TreeListing

namespace Forest

/-- The lines of a forest whose roots stand at `level`: pre-order, siblings in order,
a level for every edge, also below nodes that have no line. -/
def lines (level : Nat) : Forest → List Line
  | nil => []
  | cons node children siblings =>
      (node.line? level).toList ++ children.lines (level + 1) ++ siblings.lines level

/-- The listing of a forest. -/
def listing (level : Nat) (f : Forest) : List String :=
  (f.lines level).map Line.text

end Forest

namespace Tree

/-- The lines of a tree whose root stands at `level`. -/
def lines (level : Nat) (t : Tree) : List Line :=
  (t.node.line? level).toList ++ t.children.lines (level + 1)

/-- The listing of a tree. -/
def listing (level : Nat) (t : Tree) : List String :=
  (t.lines level).map Line.text

end Tree

/-- A cursor that was to be listed from stands below its start, at this depth. -/
structure NotAtRoot where
  depth : Nat
deriving DecidableEq, Repr

namespace Cursor

/-- The lines of a walk from where the cursor stands, and the cursor at its end. -/
def walk (c : Cursor) : List String × Cursor :=
  let last := (Walk.start c).run
  (last.finish, last.cursor)

/-- List from a cursor.  It must report depth zero; otherwise it is refused and not
moved. -/
def render (c : Cursor) : Except NotAtRoot (List String × Cursor) :=
  if c.depth = 0 then .ok c.walk else .error ⟨c.depth⟩

end Cursor

namespace Tree

/-- List a tree by walking a cursor confined to it.  Below the root of a larger tree
this lists the subtree alone: its own line has no field and no indentation. -/
def render (t : Tree) : List String :=
  (Cursor.confinedTo t).walk.1

end Tree

end TreeListing
