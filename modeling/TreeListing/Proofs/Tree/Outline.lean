import TreeListing.Proofs.Tree.Rebuild
import TreeListing.Tree.Outline

/-!
# Outlines describe their trees

A forest is a nest once its nodes are made entries (`Forest.nest`), and its outline lists
these entries.  The pass that rebuilds trees from the end of an outline gives the trees
that a nest of its entries has (`forest_ofList`), whatever the depths are, and so every
tree is read back from its outline (`tree?_outline`).
-/

namespace TreeListing

/-! ## Forests as nests -/

namespace Forest

variable {α : Type}

/-- A forest whose roots stand at `level`, with each node made an entry together with its
depth. -/
def nest (label : Nat → Node → α) (level : Nat) : Forest → Nest α
  | nil => .nil
  | cons node children siblings =>
      .cons (label level node) (children.nest label (level + 1)) (siblings.nest label level)

theorem le_of_mem_outline {f : Forest} {level : Nat} {e : Nat × Node}
    (h : e ∈ f.outline level) : level ≤ e.1 := by
  induction f generalizing level with
  | nil => simp [outline] at h
  | cons node children siblings ihChildren ihSiblings =>
      simp only [outline, List.cons_append, List.mem_cons, List.mem_append] at h
      rcases h with rfl | h | h
      · exact Nat.le_refl _
      · exact Nat.le_of_succ_le (ihChildren h)
      · exact ihSiblings h

theorem labels_nest (label : Nat → Node → α) (f : Forest) (level : Nat) :
    (f.nest label level).labels = (f.outline level).map fun e => label e.1 e.2 := by
  induction f generalizing level with
  | nil => rfl
  | cons node children siblings ihChildren ihSiblings =>
      simp [nest, outline, Nest.labels, ihChildren, ihSiblings]

/-- A nest of nodes is levelled if each of them is as deep as its level says. -/
theorem levelled_nest {depth : α → Nat} {step : Nat} {label : Nat → Node → α} {f : Forest}
    {level : Nat} (h : ∀ e ∈ f.outline level, depth (label e.1 e.2) = step * e.1) :
    (f.nest label level).Levelled depth step (step * level) := by
  induction f generalizing level with
  | nil => trivial
  | cons node children siblings ihChildren ihSiblings =>
      simp only [outline, List.cons_append, List.mem_cons, List.mem_append] at h
      refine ⟨h _ (Or.inl rfl), ?_, ihSiblings fun e he => h e (Or.inr (Or.inr he))⟩
      have hchildren := ihChildren fun e he => h e (Or.inr (Or.inl he))
      rwa [Nat.mul_succ] at hchildren

end Forest

/-! ## Outlines -/

/-- The trees of a nest of nodes. -/
def Nest.forest : Nest (Nat × Node) → Forest
  | nil => .nil
  | cons entry inner next => .cons entry.2 inner.forest next.forest

theorem Forest.forest_nest (f : Forest) (level : Nat) :
    (f.nest Prod.mk level).forest = f := by
  induction f generalizing level with
  | nil => rfl
  | cons node children siblings ihChildren ihSiblings =>
      rw [nest, Nest.forest, ihChildren, ihSiblings]

/-- Every forest is what its outline describes. -/
theorem Forest.forest_ofList_outline (f : Forest) (level : Nat) :
    (Nest.ofList Prod.fst (f.outline level)).forest = f := by
  have hlevelled : (f.nest Prod.mk level).Levelled Prod.fst 1 (1 * level) :=
    levelled_nest fun e _ => (Nat.one_mul e.1).symm
  have hlabels : (f.nest Prod.mk level).labels = f.outline level := by
    rw [labels_nest, List.map_id']
  rw [← hlabels, Nest.ofList_labels Nat.one_pos hlevelled, forest_nest]

namespace Outline

theorem trees_cons (entry : Nat × Node) (outline : List (Nat × Node)) :
    trees (entry :: outline) = adopt entry (trees outline) := rfl

/-- The first entry is the first root. -/
theorem head?_trees (outline : List (Nat × Node)) :
    (trees outline).head?.map Prod.fst = outline.head?.map Prod.fst := by
  cases outline <;> rfl

theorem exists_mem_of_mem_trees {outline : List (Nat × Node)} {root : Nat × Tree}
    (h : root ∈ trees outline) : ∃ entry ∈ outline, entry.1 = root.1 := by
  induction outline with
  | nil => simp [trees] at h
  | cons entry outline ih =>
      rw [trees_cons, adopt, List.mem_cons] at h
      rcases h with rfl | h
      · exact ⟨entry, List.mem_cons_self, rfl⟩
      · obtain ⟨e, he, hroot⟩ := ih ((List.dropWhile_sublist _).mem h)
        exact ⟨e, List.mem_cons_of_mem _ he, hroot⟩

/-- Nothing is adopted from the first root on that is not deeper. -/
theorem adopt_append {entry : Nat × Node} {beside : List (Nat × Tree)}
    (h : ∀ root ∈ beside.head?, root.1 ≤ entry.1) (roots : List (Nat × Tree)) :
    adopt entry (roots ++ beside) = adopt entry roots ++ beside := by
  have htake : beside.takeWhile (fun root => decide (entry.1 < root.1)) = [] := by
    cases beside with
    | nil => rfl
    | cons root beside => simp [Nat.not_lt.mpr (h root rfl)]
  have hdrop : beside.dropWhile (fun root => decide (entry.1 < root.1)) = beside := by
    cases beside with
    | nil => rfl
    | cons root beside => simp [Nat.not_lt.mpr (h root rfl)]
  induction roots with
  | nil => simp [adopt, htake, hdrop]
  | cons root roots ih =>
      by_cases hroot : entry.1 < root.1
      · simpa [adopt, hroot, Forest.ofTrees] using ih
      · simp [adopt, hroot]

/-- Everything that is deeper is adopted. -/
theorem adopt_of_forall_lt {entry : Nat × Node} {roots : List (Nat × Tree)}
    (h : ∀ root ∈ roots, entry.1 < root.1) :
    adopt entry roots = [(entry.1, ⟨entry.2, Forest.ofTrees (roots.map Prod.snd)⟩)] := by
  have htake : roots.takeWhile (fun root => decide (entry.1 < root.1)) = roots :=
    List.takeWhile_eq_self_iff.mpr (by simpa using h)
  have hdrop : roots.dropWhile (fun root => decide (entry.1 < root.1)) = [] :=
    List.dropWhile_eq_nil_iff.mpr (by simpa using h)
  simp [adopt, htake, hdrop]

theorem le_of_mem_head?_trees {outline : List (Nat × Node)} {d : Nat}
    (h : ∀ e ∈ outline.head?, e.1 ≤ d) : ∀ root ∈ (trees outline).head?, root.1 ≤ d := by
  intro root hroot
  have hfirst : outline.head?.map Prod.fst = some root.1 := by
    rw [← head?_trees, Option.mem_def.mp hroot, Option.map_some]
  obtain ⟨e, he, hdepth⟩ := Option.map_eq_some_iff.mp hfirst
  exact hdepth ▸ h e he

/-- Entries do not adopt an entry that is less deep than they are, nor what follows it. -/
theorem trees_append {below beside : List (Nat × Node)} {d : Nat}
    (hbelow : ∀ e ∈ below, d < e.1) (hbeside : ∀ e ∈ beside.head?, e.1 ≤ d) :
    trees (below ++ beside) = trees below ++ trees beside := by
  induction below with
  | nil => rfl
  | cons entry below ih =>
      have hentry := hbelow entry List.mem_cons_self
      have hroots : ∀ root ∈ (trees beside).head?, root.1 ≤ entry.1 := by
        intro root hroot
        have := le_of_mem_head?_trees hbeside root hroot
        omega
      rw [List.cons_append, trees_cons, trees_cons,
        ih fun e he => hbelow e (List.mem_cons_of_mem _ he), adopt_append hroots]

/-- One pass from the end builds the trees that the entries describe. -/
theorem forest_ofList (outline : List (Nat × Node)) :
    (Nest.ofList Prod.fst outline).forest = Forest.ofTrees ((trees outline).map Prod.snd) := by
  induction outline using Nest.split_induction Prod.fst with
  | hnil => rfl
  | hcons entry below beside hbelow hbeside ihBelow ihBeside =>
      have hroots : ∀ root ∈ trees below, entry.1 < root.1 := by
        intro root h
        obtain ⟨e, he, hroot⟩ := exists_mem_of_mem_trees h
        exact hroot ▸ hbelow e he
      rw [Nest.ofList_cons_append hbelow hbeside, Nest.forest, ihBelow, ihBeside, trees_cons,
        trees_append hbelow hbeside, adopt_append (le_of_mem_head?_trees hbeside),
        adopt_of_forall_lt hroots]
      rfl

/-- Every tree is read back from its outline. -/
theorem tree?_outline (t : Tree) : tree? t.outline = some t := by
  have hroots : ∀ root ∈ trees (t.children.outline 1), 0 < root.1 := by
    intro root h
    obtain ⟨e, he, hroot⟩ := exists_mem_of_mem_trees h
    have := Forest.le_of_mem_outline he
    omega
  have hchildren := forest_ofList (t.children.outline 1)
  rw [Forest.forest_ofList_outline] at hchildren
  rw [tree?, Tree.outline, trees_cons, adopt_of_forall_lt hroots, ← hchildren]

end Outline

end TreeListing
