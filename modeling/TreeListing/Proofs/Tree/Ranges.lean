import Mathlib.Data.List.Chain
import TreeListing.Proofs.Tree.Preorder

/-!
# Ranges in a tree

What a parser says about ranges is local: no range is turned round, children lie inside their
parent, and a child ends before the next one starts.  `Tree.Fits` says so of one node, and
`Tree.InOrder` of all nodes of a tree.

What follows is about nodes that may be far apart.

* `InOrder.within` is about a node and one below it, `InOrder.apart` about nodes below two
  children of one node.
* `pairwise_lt_places` says that pre-order is the lexicographic order of child indices.  So of two
  nodes either the first is above the second or they part at two children in their order.
* `InOrder.within_or_apart` puts these together: the range of the later node lies inside the range
  of the earlier one or behind it.
-/

namespace TreeListing

namespace Point

protected theorem le_refl (p : Point) : p ≤ p :=
  le_iff.mpr (.inr ⟨rfl, Nat.le_refl _⟩)

protected theorem le_trans {p q r : Point} (hpq : p ≤ q) (hqr : q ≤ r) : p ≤ r := by
  rw [le_iff] at *
  omega

instance : Trans (α := Point) (· ≤ ·) (· ≤ ·) (· ≤ ·) :=
  ⟨Point.le_trans⟩

end Point

namespace Tree

/-! ## One node -/

/-- The range of a node is not turned round, the children lie inside it, and each child ends no
later than the next one starts. -/
structure Fits (t : Tree) : Prop where
  forward : t.node.start ≤ t.node.stop
  inside : ∀ child ∈ t.children.trees,
    t.node.start ≤ child.node.start ∧ child.node.stop ≤ t.node.stop
  chain : t.children.trees.IsChain fun child next => child.node.stop ≤ next.node.start

instance (t : Tree) : Decidable t.Fits :=
  decidable_of_iff (t.node.start ≤ t.node.stop ∧
      (∀ child ∈ t.children.trees,
        t.node.start ≤ child.node.start ∧ child.node.stop ≤ t.node.stop) ∧
      t.children.trees.IsChain fun child next => child.node.stop ≤ next.node.start)
    ⟨fun h => ⟨h.1, h.2.1, h.2.2⟩, fun h => ⟨h.forward, h.inside, h.chain⟩⟩

/-- A tree with this at every node. -/
def InOrder (t : Tree) : Prop :=
  ∀ place ∈ t.places, ∀ sub ∈ t.subtree? place, sub.Fits

instance (t : Tree) : Decidable t.InOrder :=
  inferInstanceAs (Decidable (∀ place ∈ t.places, ∀ sub ∈ t.subtree? place, sub.Fits))

theorem inOrder_iff {t : Tree} :
    t.InOrder ↔ ∀ place sub, t.subtree? place = some sub → sub.Fits := by
  constructor
  · intro h place sub hsub
    exact h place (mem_places_iff.mpr (by rw [hsub]; rfl)) sub hsub
  · intro h place _ sub hsub
    exact h place sub hsub

theorem InOrder.fits {t : Tree} (ht : t.InOrder) : t.Fits :=
  inOrder_iff.mp ht [] t rfl

theorem InOrder.subtree {t sub : Tree} {path : List Nat} (ht : t.InOrder)
    (h : t.subtree? path = some sub) : sub.InOrder := by
  rw [inOrder_iff] at ht ⊢
  intro place below hbelow
  exact ht (path ++ place) below (by rw [subtree?_append, h, Option.bind_some, hbelow])

theorem InOrder.child {t child : Tree} {i : Nat} (ht : t.InOrder)
    (h : t.children.trees[i]? = some child) : child.InOrder := by
  have hsub : t.subtree? [i] = some child := subtree?_cons_eq_some_iff.mpr ⟨child, h, rfl⟩
  exact ht.subtree hsub

/-! ## Two nodes -/

/-- A node lies inside the range of every node above it. -/
theorem InOrder.within {t sub : Tree} {path : List Nat} (ht : t.InOrder)
    (h : t.subtree? path = some sub) :
    t.node.start ≤ sub.node.start ∧ sub.node.stop ≤ t.node.stop := by
  induction path generalizing t with
  | nil =>
      rw [subtree?_nil, Option.some.injEq] at h
      exact h ▸ ⟨Point.le_refl _, Point.le_refl _⟩
  | cons i path ih =>
      obtain ⟨child, hchild, hsub⟩ := subtree?_cons_eq_some_iff.mp h
      obtain ⟨hstart, hstop⟩ := ht.fits.inside child (List.mem_of_getElem? hchild)
      obtain ⟨hstart', hstop'⟩ := ih (ht.child hchild) hsub
      exact ⟨Point.le_trans hstart hstart', Point.le_trans hstop' hstop⟩

/-- A child ends before every later child starts.  Between neighbours this is given; further
apart it passes through the children between, whose ranges are not turned round. -/
theorem InOrder.child_stop_le {t first second : Tree} {i j : Nat} (ht : t.InOrder) (hij : i < j)
    (hfirst : t.children.trees[i]? = some first) (hsecond : t.children.trees[j]? = some second) :
    first.node.stop ≤ second.node.start := by
  induction hij generalizing second with
  | refl =>
      obtain ⟨hi, rfl⟩ := List.getElem?_eq_some_iff.mp hfirst
      obtain ⟨hj, rfl⟩ := List.getElem?_eq_some_iff.mp hsecond
      exact List.isChain_iff_getElem.mp ht.fits.chain i hj
  | @step j hlt ih =>
      obtain ⟨hj, rfl⟩ := List.getElem?_eq_some_iff.mp hsecond
      have hbetween : t.children.trees[j]? = some t.children.trees[j] :=
        List.getElem?_eq_getElem (by omega)
      calc first.node.stop
        _ ≤ t.children.trees[j].node.start := ih hbetween
        _ ≤ t.children.trees[j].node.stop := (ht.child hbetween).fits.forward
        _ ≤ t.children.trees[j + 1].node.start :=
            List.isChain_iff_getElem.mp ht.fits.chain j hj

/-- What lies below a child ends before what lies below a later child starts. -/
theorem InOrder.apart {t sub other : Tree} {i j : Nat} {path rest : List Nat} (ht : t.InOrder)
    (hij : i < j) (h : t.subtree? (i :: path) = some sub)
    (h' : t.subtree? (j :: rest) = some other) : sub.node.stop ≤ other.node.start := by
  obtain ⟨first, hfirst, hsub⟩ := subtree?_cons_eq_some_iff.mp h
  obtain ⟨second, hsecond, hother⟩ := subtree?_cons_eq_some_iff.mp h'
  calc sub.node.stop
    _ ≤ first.node.stop := ((ht.child hfirst).within hsub).2
    _ ≤ second.node.start := ht.child_stop_le hij hfirst hsecond
    _ ≤ other.node.start := ((ht.child hsecond).within hother).1

end Tree

/-! ## Pre-order -/

theorem Forest.pairwise_lt_places (f : Forest) (i : Nat) : (f.places i).Pairwise (· < ·) := by
  induction f generalizing i with
  | nil => exact List.Pairwise.nil
  | cons node children siblings ihChildren ihSiblings =>
      have hbelow : ((children.places 0).map (i :: ·)).Pairwise (· < ·) :=
        (ihChildren 0).map _ fun _ _ h => List.Lex.cons h
      have hroot : ∀ place ∈ (children.places 0).map (i :: ·), [i] < place := by
        intro place hplace
        obtain ⟨rest, hrest, rfl⟩ := List.mem_map.mp hplace
        obtain ⟨j, more, rfl, _⟩ := exists_cons_of_mem_places hrest
        exact List.Lex.cons List.Lex.nil
      have hright : ∀ place ∈ [i] :: (children.places 0).map (i :: ·),
          ∀ other ∈ siblings.places (i + 1), place < other := by
        intro place hplace other hother
        obtain ⟨j, rest, rfl, hle⟩ := exists_cons_of_mem_places hother
        simp only [List.mem_cons, List.mem_map] at hplace
        rcases hplace with rfl | ⟨_, _, rfl⟩ <;> exact List.Lex.rel hle
      exact List.pairwise_append.mpr
        ⟨List.pairwise_cons.mpr ⟨hroot, hbelow⟩, ihSiblings (i + 1), hright⟩

namespace Tree

/-- Pre-order is the lexicographic order of child indices. -/
theorem pairwise_lt_places (t : Tree) : t.places.Pairwise (· < ·) := by
  refine List.pairwise_cons.mpr ⟨fun place hplace => ?_, t.children.pairwise_lt_places 0⟩
  obtain ⟨j, rest, rfl, _⟩ := Forest.exists_cons_of_mem_places hplace
  exact List.Lex.nil

/-- Of two nodes in pre-order, the later one lies below the earlier one and inside its range, or
the earlier one ends before the later one starts. -/
theorem InOrder.within_or_apart {t sub other : Tree} {place later : List Nat} (ht : t.InOrder)
    (hlt : place < later) (h : t.subtree? place = some sub)
    (h' : t.subtree? later = some other) :
    place <+: later ∧ sub.node.start ≤ other.node.start ∧ other.node.stop ≤ sub.node.stop ∨
      sub.node.stop ≤ other.node.start := by
  -- along the lexicographic order: the places part, or the first one ends
  have hlex : List.Lex (· < ·) place later := hlt
  clear hlt
  induction hlex generalizing t with
  | @nil j rest =>
      rw [subtree?_nil, Option.some.injEq] at h
      subst h
      exact .inl ⟨List.nil_prefix, ht.within h'⟩
  | rel hij => exact .inr (ht.apart hij h h')
  | @cons i place later _ ih =>
      obtain ⟨child, hchild, hsub⟩ := subtree?_cons_eq_some_iff.mp h
      obtain ⟨child', hchild', hother⟩ := subtree?_cons_eq_some_iff.mp h'
      obtain rfl := Option.some.inj (hchild.symm.trans hchild')
      rcases ih (ht.child hchild) hsub hother with ⟨habove, hrange⟩ | hapart
      · exact .inl ⟨List.cons_prefix_cons.mpr ⟨rfl, habove⟩, hrange⟩
      · exact .inr hapart

end Tree

end TreeListing
