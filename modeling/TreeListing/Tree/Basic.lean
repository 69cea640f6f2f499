import TreeListing.Point

/-!
# Syntax trees

A node carries what a parser says about it: its kind, whether it is named, whether
error recovery put it in, the field on the edge that leads to it, and its range.
Below a node stands a forest, stored the way it is walked: the first tree's node,
the forest of its children, and the forest of the trees to its right.
-/

namespace TreeListing

/-- What a parser says about one node. -/
structure Node where
  /-- Grammar rule or token type. -/
  kind : String
  /-- A grammar rule, as opposed to punctuation. -/
  named : Bool
  /-- Put in by error recovery. -/
  missing : Bool
  /-- The name on the edge from the parent, if it has one. -/
  field : Option String
  start : Point
  stop : Point
deriving DecidableEq, Repr, Inhabited

/-- Trees side by side. -/
inductive Forest where
  /-- No tree. -/
  | nil
  /-- A first tree, given by its node and children, and the trees to its right. -/
  | cons (node : Node) (children siblings : Forest)
deriving DecidableEq, Repr, Inhabited

/-- A node and the forest below it. -/
structure Tree where
  node : Node
  children : Forest
deriving DecidableEq, Repr, Inhabited

namespace Forest

/-- The trees of a forest, from left to right. -/
def trees : Forest → List Tree
  | nil => []
  | cons node children siblings => ⟨node, children⟩ :: siblings.trees

/-- The forest with the given trees, from left to right. -/
def ofTrees : List Tree → Forest
  | [] => nil
  | t :: ts => cons t.node t.children (ofTrees ts)

@[simp] theorem trees_ofTrees (ts : List Tree) : (ofTrees ts).trees = ts := by
  induction ts with
  | nil => rfl
  | cons t ts ih => simp [ofTrees, trees, ih]

@[simp] theorem ofTrees_trees (f : Forest) : ofTrees f.trees = f := by
  induction f with
  | nil => rfl
  | cons node children siblings _ ih => simp [ofTrees, trees, ih]

/-- The number of nodes. -/
def size : Forest → Nat
  | nil => 0
  | cons _ children siblings => 1 + children.size + siblings.size

/-- The number of nodes on a longest way down. -/
def height : Forest → Nat
  | nil => 0
  | cons _ children siblings => max (1 + children.height) siblings.height

/-- The nodes in pre-order, each with its depth when the roots stand at `level`. -/
def outline (level : Nat) : Forest → List (Nat × Node)
  | nil => []
  | cons node children siblings =>
      (level, node) :: children.outline (level + 1) ++ siblings.outline level

end Forest

namespace Tree

/-- The number of nodes. -/
def size (t : Tree) : Nat :=
  1 + t.children.size

/-- The number of edges on a longest way down. -/
def height (t : Tree) : Nat :=
  t.children.height

/-- The subtree reached by the given child indices. -/
def subtree? (t : Tree) : List Nat → Option Tree
  | [] => some t
  | i :: path => t.children.trees[i]?.bind fun below => below.subtree? path

/-- The nodes in pre-order with their depths. -/
def outline (t : Tree) : List (Nat × Node) :=
  (0, t.node) :: t.children.outline 1

end Tree

end TreeListing
