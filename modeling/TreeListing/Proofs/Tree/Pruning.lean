import TreeListing.Line
import TreeListing.Proofs.Tree.Surroundings

/-!
# Trees without their hidden leaves

If a node that is not shown never has children, then nothing is lost but leaves when only
the shown nodes are kept: what remains is a tree with the same edges.  `Forest.prune`
removes these leaves, and `outline_prune` says that exactly the shown nodes remain, each
as deep as before.

Behind a subtree the first shown node then stands no deeper than the root of the subtree
(`le_of_mem_head?_behind`).  With children below a hidden node this fails, since such a
child may come first.
-/

namespace TreeListing

namespace Forest

/-- No node that is not shown has children. -/
def HiddenLeaves : Forest → Prop
  | nil => True
  | cons node children siblings =>
      (node.shown = false → children = nil) ∧ children.HiddenLeaves ∧ siblings.HiddenLeaves

instance decidableHiddenLeaves : (f : Forest) → Decidable f.HiddenLeaves
  | nil => inferInstanceAs (Decidable True)
  | cons node children siblings =>
      have := decidableHiddenLeaves children
      have := decidableHiddenLeaves siblings
      inferInstanceAs (Decidable ((node.shown = false → children = nil) ∧
        children.HiddenLeaves ∧ siblings.HiddenLeaves))

/-- A forest without the leaves that are not shown. -/
def prune : Forest → Forest
  | nil => nil
  | cons node children siblings =>
      if node.shown = false ∧ children = nil then siblings.prune
      else cons node children.prune siblings.prune

/-- The shown nodes remain, each as deep as before. -/
theorem HiddenLeaves.outline_prune {f : Forest} (hf : f.HiddenLeaves) (level : Nat) :
    f.prune.outline level = (f.outline level).filter fun e => e.2.shown := by
  induction f generalizing level with
  | nil => rfl
  | cons node children siblings ihChildren ihSiblings =>
      obtain ⟨hnode, hchildren, hsiblings⟩ := hf
      cases hshown : node.shown with
      | true =>
          simp [prune, outline, hshown, ihChildren hchildren, ihSiblings hsiblings]
      | false =>
          have hleaf : children = nil := hnode hshown
          simp [prune, outline, hshown, hleaf, ihSiblings hsiblings]

/-- The first shown node of a forest is a root. -/
theorem HiddenLeaves.head?_filter {f : Forest} (hf : f.HiddenLeaves) {level : Nat} :
    ∀ e ∈ ((f.outline level).filter fun e => e.2.shown).head?, e.1 = level := by
  induction f with
  | nil => simp [outline]
  | cons node children siblings _ ih =>
      obtain ⟨hnode, _, hsiblings⟩ := hf
      cases hshown : node.shown with
      | true => simp [outline, hshown]
      | false =>
          have hleaf : children = nil := hnode hshown
          simpa [outline, hshown, hleaf] using ih hsiblings

theorem HiddenLeaves.drop {f : Forest} (hf : f.HiddenLeaves) (n : Nat) :
    (ofTrees (f.trees.drop n)).HiddenLeaves := by
  induction f generalizing n with
  | nil => simp [trees, ofTrees, HiddenLeaves]
  | cons node children siblings _ ih =>
      cases n with
      | zero => simpa using hf
      | succ n => exact ih hf.2.2 n

end Forest

namespace Tree

/-- The forest of a single tree. -/
def forest (t : Tree) : Forest :=
  .cons t.node t.children .nil

/-- No node that is not shown has children. -/
def HiddenLeaves (t : Tree) : Prop :=
  t.forest.HiddenLeaves

instance (t : Tree) : Decidable t.HiddenLeaves :=
  inferInstanceAs (Decidable t.forest.HiddenLeaves)

theorem outline_forest (t : Tree) : t.forest.outline 0 = t.outline := by
  simp [forest, Forest.outline, outline]

theorem HiddenLeaves.of_getElem? {t below : Tree} (ht : t.HiddenLeaves) {i : Nat}
    (h : t.children.trees[i]? = some below) : below.HiddenLeaves := by
  obtain ⟨hlt, hget⟩ := List.getElem?_eq_some_iff.mp h
  have hdrop := ht.2.1.drop i
  rw [List.drop_eq_getElem_cons hlt, hget] at hdrop
  exact ⟨hdrop.1, hdrop.2.1, trivial⟩

/-- The first shown node behind a subtree is not deeper than the root of the subtree. -/
theorem HiddenLeaves.le_of_mem_head?_behind {t sub : Tree} (ht : t.HiddenLeaves)
    {path : List Nat} (h : t.subtree? path = some sub) {level : Nat} :
    ∀ e ∈ ((t.behind level path).filter fun e => e.2.shown).head?, e.1 ≤ level + path.length := by
  induction path generalizing t level with
  | nil => simp [behind]
  | cons i path ih =>
      obtain ⟨below, hbelow, hsub⟩ := subtree?_cons_eq_some_iff.mp h
      intro e he
      rw [behind, hbelow, List.filter_append, List.head?_append, Option.mem_def,
        Option.or_eq_some_iff] at he
      rw [List.length_cons]
      rcases he with he | ⟨_, he⟩
      · have := ih (ht.of_getElem? hbelow) hsub e he
        omega
      · have := (ht.2.1.drop (i + 1)).head?_filter e he
        omega

end Tree

end TreeListing
