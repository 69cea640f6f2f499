import TreeListing.Listing

/-!
# Places in a tree

A node is found by the child indices that lead to it.  `Tree.rightOf` collects what
stands to the right of such a node and of the nodes above it, from the inside out;
nothing in a tree stands to the right of its root.  `exists_within?` places a cursor at
a node and says that its way up holds exactly these trees.
-/

namespace TreeListing

namespace Tree

/-! ## Subtrees -/

@[simp] theorem subtree?_nil (t : Tree) : t.subtree? [] = some t := rfl

theorem subtree?_cons_eq_some_iff {t sub : Tree} {i : Nat} {path : List Nat} :
    t.subtree? (i :: path) = some sub ↔
      ∃ below, t.children.trees[i]? = some below ∧ below.subtree? path = some sub := by
  simp [subtree?, Option.bind_eq_some_iff]

theorem subtree?_append (t : Tree) (path rest : List Nat) :
    t.subtree? (path ++ rest) = (t.subtree? path).bind fun sub => sub.subtree? rest := by
  induction path generalizing t with
  | nil => rfl
  | cons i path ih =>
      rw [List.cons_append, subtree?, subtree?, Option.bind_assoc]
      simp only [ih]

/-- The trees to the right of the node that the child indices lead to, then those to the
right of its parent, and so on up to the nodes directly below the root. -/
def rightOf (t : Tree) : List Nat → List Forest
  | [] => []
  | i :: path =>
      (match t.children.trees[i]? with
        | none => []
        | some below => below.rightOf path) ++
      [Forest.ofTrees (t.children.trees.drop (i + 1))]

theorem rightOf_cons {t below : Tree} {i : Nat} (path : List Nat)
    (h : t.children.trees[i]? = some below) :
    t.rightOf (i :: path) =
      below.rightOf path ++ [Forest.ofTrees (t.children.trees.drop (i + 1))] := by
  simp [rightOf, h]

end Tree

/-! ## Heights -/

theorem Forest.height_le_of_mem_trees {f : Forest} {t : Tree} (h : t ∈ f.trees) :
    t.height < f.height := by
  induction f with
  | nil => simp [trees] at h
  | cons node children siblings _ ih =>
      simp only [trees, List.mem_cons] at h
      simp only [height]
      rcases h with rfl | h
      · simp only [Tree.height]
        omega
      · have := ih h
        omega

theorem Forest.height_ofTrees_drop_le (f : Forest) (n : Nat) :
    (Forest.ofTrees (f.trees.drop n)).height ≤ f.height := by
  induction f generalizing n with
  | nil => simp [trees, ofTrees]
  | cons node children siblings _ ih =>
      cases n with
      | zero => simp
      | succ n =>
          have := ih n
          simp only [trees, List.drop_succ_cons, height]
          omega

namespace Tree

/-- A subtree is not higher than the tree. -/
theorem height_le_of_subtree? {t sub : Tree} {path : List Nat}
    (h : t.subtree? path = some sub) : sub.height ≤ t.height := by
  induction path generalizing t with
  | nil =>
      rw [subtree?_nil, Option.some.injEq] at h
      exact h ▸ Nat.le_refl _
  | cons i path ih =>
      obtain ⟨below, hbelow, hsub⟩ := subtree?_cons_eq_some_iff.mp h
      have hlt := Forest.height_le_of_mem_trees (List.mem_of_getElem? hbelow)
      have hle := ih hsub
      simp only [height] at *
      omega

/-- What stands to the right is not higher than the tree. -/
theorem height_le_of_mem_rightOf {t : Tree} {path : List Nat} {f : Forest}
    (h : f ∈ t.rightOf path) : f.height ≤ t.height := by
  induction path generalizing t with
  | nil => simp [rightOf] at h
  | cons i path ih =>
      simp only [rightOf, List.mem_append, List.mem_singleton] at h
      rcases h with h | rfl
      · cases hbelow : t.children.trees[i]? with
        | none => simp [hbelow] at h
        | some below =>
            rw [hbelow] at h
            have hlt := Forest.height_le_of_mem_trees (List.mem_of_getElem? hbelow)
            have hle := ih h
            simp only [height] at *
            omega
      · exact Forest.height_ofTrees_drop_le _ _

end Tree

/-! ## Cursors at places -/

namespace Cursor

/-- The child with an index stands before the trees that follow it in the forest. -/
theorem child?_eq (c : Cursor) (i : Nat) :
    c.child? i = (c.subtree.children.trees[i]?).map fun below =>
      ⟨⟨below.node, below.children,
        Forest.ofTrees (c.subtree.children.trees.drop (i + 1))⟩,
        c.here :: c.above, c.depth + 1⟩ := by
  induction i with
  | zero =>
      unfold child? firstChild? subtree
      cases c.here.children <;> simp [Forest.trees]
  | succ i ih =>
      unfold child?
      rw [ih]
      cases hnext : c.subtree.children.trees[i + 1]? with
      | none =>
          have hlength := List.getElem?_eq_none_iff.mp hnext
          cases hi : c.subtree.children.trees[i]? with
          | none => simp
          | some below => simp [nextSibling?, List.drop_eq_nil_of_le hlength, Forest.ofTrees]
      | some next =>
          obtain ⟨hlt, hget⟩ := List.getElem?_eq_some_iff.mp hnext
          have hdrop := List.drop_eq_getElem_cons hlt
          rw [hget] at hdrop
          rw [List.getElem?_eq_getElem (by omega)]
          simp [nextSibling?, hdrop, Forest.ofTrees]

theorem exists_child? {c : Cursor} {i : Nat} {below : Tree}
    (h : c.subtree.children.trees[i]? = some below) :
    ∃ next, c.child? i = some next ∧ next.subtree = below ∧
      next.here.siblings :: next.above.map Position.siblings =
        Forest.ofTrees (c.subtree.children.trees.drop (i + 1)) ::
          c.here.siblings :: c.above.map Position.siblings := by
  have hchild := child?_eq c i
  rw [h, Option.map_some] at hchild
  exact ⟨_, hchild, rfl, rfl⟩

/-- From a cursor the child indices lead to the subtree with these indices, with the
trees to its right beside the way up. -/
theorem exists_foldlM_child? {c : Cursor} {path : List Nat} {sub : Tree}
    (h : c.subtree.subtree? path = some sub) :
    ∃ target, path.foldlM child? c = some target ∧ target.subtree = sub ∧
      target.here.siblings :: target.above.map Position.siblings =
        c.subtree.rightOf path ++ c.here.siblings :: c.above.map Position.siblings := by
  induction path generalizing c with
  | nil =>
      rw [Tree.subtree?_nil, Option.some.injEq] at h
      exact ⟨c, rfl, h, rfl⟩
  | cons i path ih =>
      obtain ⟨below, hbelow, hsub⟩ := Tree.subtree?_cons_eq_some_iff.mp h
      obtain ⟨next, hchild, rfl, hnext⟩ := exists_child? hbelow
      obtain ⟨target, hfold, htarget, hright⟩ := ih hsub
      refine ⟨target, ?_, htarget, ?_⟩
      · rw [List.foldlM_cons, hchild]
        exact hfold
      · rw [hright, Tree.rightOf_cons path hbelow, hnext, List.append_assoc]
        rfl

/-- A cursor can be placed at every node of a tree. -/
theorem exists_within? {t sub : Tree} {path : List Nat} (h : t.subtree? path = some sub)
    (depth : Nat) :
    ∃ c, within? t path depth = some c ∧ c.depth = depth ∧ c.subtree = sub ∧
      c.here.siblings :: c.above.map Position.siblings = t.rightOf path ++ [.nil] := by
  obtain ⟨target, hfold, hsub, hright⟩ := exists_foldlM_child? (c := atRoot t) h
  refine ⟨{ target with depth }, ?_, rfl, hsub, hright⟩
  simp [within?, hfold]

end Cursor

end TreeListing
