import TreeListing.Proofs.Tree.Places

/-!
# What surrounds a subtree in pre-order

A subtree is one block of the outline of its tree.  `Tree.before` is the outline in front
of the node that child indices lead to, `Tree.behind` the outline from the end of its
subtree on, and `outlineFrom_eq` cuts the outline at these places.
-/

namespace TreeListing

namespace Tree

/-- The outline of a tree whose root stands at `level`. -/
def outlineFrom (level : Nat) (t : Tree) : List (Nat × Node) :=
  (level, t.node) :: t.children.outline (level + 1)

/-- The outline of a tree in front of the node that the child indices lead to. -/
def before (level : Nat) (t : Tree) : List Nat → List (Nat × Node)
  | [] => []
  | i :: path =>
      (level, t.node) :: (Forest.ofTrees (t.children.trees.take i)).outline (level + 1) ++
      match t.children.trees[i]? with
        | none => []
        | some below => below.before (level + 1) path

/-- The outline of a tree behind the subtree that the child indices lead to. -/
def behind (level : Nat) (t : Tree) : List Nat → List (Nat × Node)
  | [] => []
  | i :: path =>
      (match t.children.trees[i]? with
        | none => []
        | some below => below.behind (level + 1) path) ++
      (Forest.ofTrees (t.children.trees.drop (i + 1))).outline (level + 1)

end Tree

/-- The outline of a forest, cut around the outline of one of its trees. -/
theorem Forest.outline_eq_of_getElem? {f : Forest} {i : Nat} {t : Tree}
    (h : f.trees[i]? = some t) (level : Nat) :
    f.outline level =
      (ofTrees (f.trees.take i)).outline level ++
        (t.outlineFrom level ++ (ofTrees (f.trees.drop (i + 1))).outline level) := by
  induction f generalizing i with
  | nil => simp [trees] at h
  | cons node children siblings _ ih =>
      cases i with
      | zero =>
          simp only [trees, List.getElem?_cons_zero, Option.some.injEq] at h
          subst h
          simp [trees, ofTrees, outline, Tree.outlineFrom]
      | succ i =>
          simp only [trees, List.getElem?_cons_succ] at h
          simp [trees, ofTrees, outline, ih h]

namespace Tree

/-- The outline of a tree, cut around the outline of a subtree. -/
theorem outlineFrom_eq {t sub : Tree} {path : List Nat} (h : t.subtree? path = some sub)
    (level : Nat) :
    t.outlineFrom level =
      t.before level path ++ (sub.outlineFrom (level + path.length) ++ t.behind level path) := by
  induction path generalizing t level with
  | nil =>
      rw [subtree?_nil, Option.some.injEq] at h
      simp [before, behind, h]
  | cons i path ih =>
      obtain ⟨below, hbelow, hsub⟩ := subtree?_cons_eq_some_iff.mp h
      have hlevel : level + 1 + path.length = level + (path.length + 1) := by omega
      rw [outlineFrom, Forest.outline_eq_of_getElem? hbelow, ih hsub, hlevel]
      simp [before, behind, hbelow]

/-- The entry of a node stands between what is before it and the outline below it. -/
theorem outline_eq_of_subtree? {t sub : Tree} {path : List Nat} (h : t.subtree? path = some sub) :
    t.outline =
      t.before 0 path ++ (path.length, sub.node) ::
        (sub.children.outline (path.length + 1) ++ t.behind 0 path) := by
  have hcut := outlineFrom_eq h 0
  rwa [Nat.zero_add, outlineFrom] at hcut

end Tree

end TreeListing
