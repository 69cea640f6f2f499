import Mathlib.Data.List.Nodup
import TreeListing.Proofs.Tree.Surroundings

/-!
# Nodes in pre-order

A node is a place in its tree: the child indices that lead to it.  `Tree.places` lists the
places of a tree in pre-order, each once (`nodup_places`), and no others (`mem_places_iff`).
The outline of a tree is read off its places (`outlineFrom_eq_filterMap`).

Below a node lie the places that its own place begins.  They are one block of the pre-order,
in the pre-order of the subtree (`exists_places_eq`).

What is said of a forest here is said below a node: the forest is what is left of the node's
children from some index on.
-/

namespace TreeListing

/-- The nodes of a forest in pre-order, each by the child indices that lead to it.  The first
tree has the index `i`. -/
def Forest.places (i : Nat) : Forest → List (List Nat)
  | nil => []
  | cons _ children siblings =>
      [i] :: (children.places 0).map (i :: ·) ++ siblings.places (i + 1)

namespace Tree

/-- The nodes of a tree in pre-order, each by the child indices that lead to it. -/
def places (t : Tree) : List (List Nat) :=
  [] :: t.children.places 0

end Tree

namespace Forest

/-! ## Below a node -/

theorem exists_cons_of_mem_places {f : Forest} {i : Nat} {place : List Nat}
    (h : place ∈ f.places i) : ∃ j rest, place = j :: rest ∧ i ≤ j := by
  induction f generalizing i with
  | nil => simp [places] at h
  | cons node children siblings _ ih =>
      simp only [places, List.cons_append, List.mem_cons, List.mem_append, List.mem_map] at h
      rcases h with rfl | ⟨rest, _, rfl⟩ | h
      · exact ⟨i, [], rfl, Nat.le_refl i⟩
      · exact ⟨i, rest, rfl, Nat.le_refl i⟩
      · obtain ⟨j, rest, rfl, hle⟩ := ih h
        exact ⟨j, rest, rfl, Nat.le_of_succ_le hle⟩

theorem nodup_places (f : Forest) (i : Nat) : (f.places i).Nodup := by
  induction f generalizing i with
  | nil => exact List.nodup_nil
  | cons node children siblings ihChildren ihSiblings =>
      have hbelow : ((children.places 0).map (i :: ·)).Nodup :=
        List.Nodup.map List.cons_injective (ihChildren 0)
      have hroot : [i] ∉ (children.places 0).map (i :: ·) := by
        intro h
        obtain ⟨rest, hrest, heq⟩ := List.mem_map.mp h
        obtain ⟨j, rest', rfl, _⟩ := exists_cons_of_mem_places hrest
        simp at heq
      have hright : ∀ place ∈ [i] :: (children.places 0).map (i :: ·),
          ∀ other ∈ siblings.places (i + 1), place ≠ other := by
        rintro place hplace other hother rfl
        obtain ⟨j, rest, rfl, hle⟩ := exists_cons_of_mem_places hother
        have hhead : j = i := by
          simp only [List.mem_cons, List.mem_map, List.cons.injEq] at hplace
          rcases hplace with ⟨rfl, _⟩ | ⟨_, _, rfl, _⟩ <;> rfl
        omega
      exact List.nodup_append.mpr
        ⟨List.nodup_cons.mpr ⟨hroot, hbelow⟩, ihSiblings (i + 1), hright⟩

theorem length_places (f : Forest) (i : Nat) : (f.places i).length = f.size := by
  induction f generalizing i with
  | nil => rfl
  | cons node children siblings ihChildren ihSiblings =>
      simp [places, size, ihChildren, ihSiblings]
      omega

/-- The first of a node's remaining children. -/
theorem subtree?_cons_of_drop {t : Tree} {i : Nat} {node : Node} {children siblings : Forest}
    (h : t.children.trees.drop i = (cons node children siblings).trees) (rest : List Nat) :
    t.subtree? (i :: rest) = (⟨node, children⟩ : Tree).subtree? rest ∧
      t.children.trees.drop (i + 1) = siblings.trees := by
  have hfirst : t.children.trees[i]? = some ⟨node, children⟩ := by
    rw [← List.head?_drop, h]
    rfl
  refine ⟨by rw [Tree.subtree?, hfirst, Option.bind_some], ?_⟩
  rw [← List.tail_drop, h]
  rfl

theorem mem_places_iff {t : Tree} {f : Forest} {i : Nat} (h : t.children.trees.drop i = f.trees)
    {place : List Nat} :
    place ∈ f.places i ↔ ∃ j rest, place = j :: rest ∧ i ≤ j ∧ (t.subtree? place).isSome := by
  induction f generalizing t i place with
  | nil =>
      refine iff_of_false (by simp [places]) ?_
      rintro ⟨j, rest, rfl, hle, hsome⟩
      have hlength : t.children.trees.length ≤ j :=
        Nat.le_trans (List.drop_eq_nil_iff.mp h) hle
      simp [Tree.subtree?, List.getElem?_eq_none hlength] at hsome
  | cons node children siblings ihChildren ihSiblings =>
      have hbelow : ∀ rest, rest ∈ children.places 0 ↔ ∃ j more, rest = j :: more ∧ 0 ≤ j ∧
          ((⟨node, children⟩ : Tree).subtree? rest).isSome := fun rest => ihChildren rfl
      have hright : place ∈ siblings.places (i + 1) ↔ ∃ j rest, place = j :: rest ∧ i + 1 ≤ j ∧
          (t.subtree? place).isSome := ihSiblings (subtree?_cons_of_drop h []).2
      simp only [places, List.cons_append, List.mem_cons, List.mem_append, List.mem_map]
      rw [hright]
      constructor
      · rintro (rfl | ⟨rest, hrest, rfl⟩ | ⟨j, rest, rfl, hle, hsome⟩)
        · exact ⟨i, [], rfl, Nat.le_refl i, by rw [(subtree?_cons_of_drop h []).1]; rfl⟩
        · obtain ⟨_, _, _, _, hsome⟩ := (hbelow rest).mp hrest
          exact ⟨i, rest, rfl, Nat.le_refl i, by rwa [(subtree?_cons_of_drop h rest).1]⟩
        · exact ⟨j, rest, rfl, Nat.le_of_succ_le hle, hsome⟩
      · rintro ⟨j, rest, rfl, hle, hsome⟩
        rcases Nat.eq_or_lt_of_le hle with rfl | hlt
        · rw [(subtree?_cons_of_drop h rest).1] at hsome
          cases rest with
          | nil => exact .inl rfl
          | cons k rest =>
              have hplace := (hbelow (k :: rest)).mpr ⟨k, rest, rfl, Nat.zero_le k, hsome⟩
              exact .inr (.inl ⟨k :: rest, hplace, rfl⟩)
        · exact .inr (.inr ⟨j, rest, rfl, hlt, hsome⟩)

/-- The outline of a node's remaining children is read off their places. -/
theorem outline_eq_filterMap {t : Tree} {f : Forest} {i : Nat}
    (h : t.children.trees.drop i = f.trees) (level : Nat) :
    f.outline (level + 1) = (f.places i).filterMap fun place =>
      (t.subtree? place).map fun sub => (level + place.length, sub.node) := by
  induction f generalizing t i level with
  | nil => rfl
  | cons node children siblings ihChildren ihSiblings =>
      have hbelow : children.outline (level + 1 + 1) =
          ((children.places 0).map (i :: ·)).filterMap fun place =>
            (t.subtree? place).map fun sub => (level + place.length, sub.node) := by
        rw [ihChildren (t := ⟨node, children⟩) (i := 0) rfl, List.filterMap_map]
        refine List.filterMap_congr fun rest _ => ?_
        rw [Function.comp_apply, (subtree?_cons_of_drop h rest).1, List.length_cons,
          Nat.add_right_comm level 1, Nat.add_assoc]
      rw [outline, places, hbelow, ihSiblings (subtree?_cons_of_drop h []).2,
        List.filterMap_append, List.filterMap_cons, (subtree?_cons_of_drop h []).1]
      rfl

/-- The places of a forest, cut around those of one of its trees. -/
theorem exists_places_eq (f : Forest) (i : Nat) {j : Nat} {t : Tree} (h : f.trees[j]? = some t) :
    ∃ before behind, f.places i = before ++ (t.places.map ((i + j) :: ·) ++ behind) := by
  induction f generalizing i j with
  | nil => simp [trees] at h
  | cons node children siblings _ ih =>
      cases j with
      | zero =>
          obtain rfl := Option.some.inj h
          exact ⟨[], siblings.places (i + 1), by simp [places, Tree.places]⟩
      | succ j =>
          obtain ⟨before, behind, hcut⟩ := ih (i + 1) h
          refine ⟨[i] :: (children.places 0).map (i :: ·) ++ before, behind, ?_⟩
          rw [places, hcut, List.append_assoc, Nat.add_right_comm, Nat.add_assoc]

end Forest

namespace Tree

/-! ## The places of a tree -/

theorem nodup_places (t : Tree) : t.places.Nodup := by
  refine List.nodup_cons.mpr ⟨fun h => ?_, t.children.nodup_places 0⟩
  obtain ⟨_, _, heq, _⟩ := Forest.exists_cons_of_mem_places h
  simp at heq

theorem length_places (t : Tree) : t.places.length = t.size := by
  rw [places, List.length_cons, Forest.length_places, size, Nat.add_comm]

/-- The places of a tree are the child indices that lead to a node. -/
theorem mem_places_iff {t : Tree} {place : List Nat} :
    place ∈ t.places ↔ (t.subtree? place).isSome := by
  rw [places, List.mem_cons, Forest.mem_places_iff (t := t) (i := 0) rfl]
  cases place with
  | nil => simp
  | cons i rest => simp

/-- The outline of a tree is read off its places. -/
theorem outlineFrom_eq_filterMap (t : Tree) (level : Nat) :
    t.outlineFrom level = t.places.filterMap fun place =>
      (t.subtree? place).map fun sub => (level + place.length, sub.node) := by
  rw [outlineFrom, Forest.outline_eq_filterMap (t := t) (i := 0) rfl, places,
    List.filterMap_cons]
  rfl

/-! ## The places of a subtree -/

theorem mem_map_places_iff {t sub : Tree} {path : List Nat} (h : t.subtree? path = some sub)
    {place : List Nat} :
    place ∈ sub.places.map (path ++ ·) ↔ place ∈ t.places ∧ path <+: place := by
  simp only [List.mem_map, mem_places_iff]
  constructor
  · rintro ⟨rest, hrest, rfl⟩
    exact ⟨by rwa [subtree?_append, h, Option.bind_some], List.prefix_append path rest⟩
  · rintro ⟨hplace, rest, rfl⟩
    rw [subtree?_append, h, Option.bind_some] at hplace
    exact ⟨rest, hplace, rfl⟩

/-- The places below a node are one block of the pre-order, and no other place lies below it. -/
theorem exists_places_eq {t sub : Tree} {path : List Nat} (h : t.subtree? path = some sub) :
    ∃ front back, t.places = front ++ (sub.places.map (path ++ ·) ++ back) ∧
      ∀ place ∈ front ++ back, ¬ path <+: place := by
  suffices hcut : ∃ front back, t.places = front ++ (sub.places.map (path ++ ·) ++ back) by
    obtain ⟨front, back, hplaces⟩ := hcut
    refine ⟨front, back, hplaces, fun place hplace hbelow => ?_⟩
    have hnodup := t.nodup_places
    have hinner : place ∈ sub.places.map (path ++ ·) := by
      refine (mem_map_places_iff h).mpr ⟨?_, hbelow⟩
      rw [hplaces]
      rcases List.mem_append.mp hplace with hfront | hback
      · exact List.mem_append_left _ hfront
      · exact List.mem_append_right _ (List.mem_append_right _ hback)
    rw [hplaces, List.nodup_append, List.nodup_append] at hnodup
    rcases List.mem_append.mp hplace with hfront | hback
    · exact hnodup.2.2 place hfront place (List.mem_append_left _ hinner) rfl
    · exact hnodup.2.1.2.2 place hinner place hback rfl
  induction path generalizing t with
  | nil =>
      rw [subtree?_nil, Option.some.injEq] at h
      exact ⟨[], [], by simp [h]⟩
  | cons i path ih =>
      obtain ⟨below, hbelow, hsub⟩ := subtree?_cons_eq_some_iff.mp h
      obtain ⟨front, back, hplaces⟩ := ih hsub
      obtain ⟨before, behind, hforest⟩ := t.children.exists_places_eq 0 hbelow
      refine ⟨[] :: before ++ front.map (i :: ·), back.map (i :: ·) ++ behind, ?_⟩
      rw [places, hforest, hplaces]
      simp

end Tree

end TreeListing
