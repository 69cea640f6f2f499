import TreeListing.Proofs.Tree.Places
import TreeListing.Proofs.Walk.Reference

/-!
# Where a cursor can get

A cursor that cannot leave its start is always at some node below it, and the child indices
that lead there say everything about it.  `descend?` is the cursor at given child indices.  A
move changes the child indices: it appends a zero, counts up the last one, or drops it
(`Move.target?`).  It succeeds if there is a node at the new indices, and the cursor is then
the one that stands there (`move?_of_descend?`).

The turns of a walk are such moves.  A walk ends where no sibling and no parent is left, and
for a cursor that cannot leave its start that is the start itself: the walk brings the cursor
back, with everything that it had (`cursor_walk_of_confined`).
-/

namespace TreeListing

namespace Tree

/-- A tree on its own has the same trees below its root. -/
theorem subtree?_detached {path : List Nat} (h : path ≠ []) (t : Tree) :
    t.detached.subtree? path = t.subtree? path := by
  cases path with
  | nil => exact absurd rfl h
  | cons i path => rfl

/-- A way down is not longer than the tree is high. -/
theorem length_add_height_le {t sub : Tree} {path : List Nat} (h : t.subtree? path = some sub) :
    path.length + sub.height ≤ t.height := by
  induction path generalizing t with
  | nil =>
      rw [subtree?_nil, Option.some.injEq] at h
      simp [h]
  | cons i path ih =>
      obtain ⟨below, hbelow, hsub⟩ := subtree?_cons_eq_some_iff.mp h
      have hlt := Forest.height_le_of_mem_trees (List.mem_of_getElem? hbelow)
      have hle := ih hsub
      simp only [height, List.length_cons] at *
      omega

end Tree

namespace Cursor

/-! ## Places below a start -/

/-- The cursor at the node that the child indices lead to. -/
def descend? (c : Cursor) (path : List Nat) : Option Cursor :=
  path.foldlM child? c

@[simp] theorem descend?_nil (c : Cursor) : c.descend? [] = some c := rfl

theorem descend?_cons (c : Cursor) (i : Nat) (path : List Nat) :
    c.descend? (i :: path) = (c.child? i).bind fun next => next.descend? path := by
  rw [descend?, List.foldlM_cons]
  rfl

theorem descend?_concat (c : Cursor) (path : List Nat) (i : Nat) :
    c.descend? (path ++ [i]) = (c.descend? path).bind fun above => above.child? i := by
  rw [descend?, List.foldlM_append]
  simp [descend?]

/-- From a child the way up leads back. -/
theorem parent?_of_child? {c below : Cursor} {i : Nat} (h : c.child? i = some below) :
    below.parent? = some c := by
  rw [child?_eq, Option.map_eq_some_iff] at h
  obtain ⟨_, _, rfl⟩ := h
  rfl

/-- The cursor at the child indices stands at the subtree there, as many levels down as there
are indices. -/
theorem subtree_of_descend? {c below : Cursor} {path : List Nat}
    (h : c.descend? path = some below) :
    c.subtree.subtree? path = some below.subtree ∧ below.depth = c.depth + path.length := by
  induction path generalizing c with
  | nil =>
      rw [descend?_nil, Option.some.injEq] at h
      subst h
      exact ⟨rfl, rfl⟩
  | cons i path ih =>
      rw [descend?_cons, Option.bind_eq_some_iff] at h
      obtain ⟨next, hchild, hbelow⟩ := h
      obtain ⟨hsub, hdepth⟩ := ih hbelow
      rw [child?_eq, Option.map_eq_some_iff] at hchild
      obtain ⟨tree, htree, rfl⟩ := hchild
      refine ⟨Tree.subtree?_cons_eq_some_iff.mpr ⟨tree, htree, hsub⟩, ?_⟩
      rw [hdepth, List.length_cons, Nat.add_right_comm, Nat.add_assoc]

/-! ## Moves -/

/-- A move of a cursor. -/
inductive Move where
  | firstChild
  | nextSibling
  | parent
deriving DecidableEq, Repr

/-- Make a move. -/
def move? (c : Cursor) : Move → Option Cursor
  | .firstChild => c.firstChild?
  | .nextSibling => c.nextSibling?
  | .parent => c.parent?

/-- The child indices that a move leads to; none from the start to the side or up. -/
def Move.target? : Move → List Nat → Option (List Nat)
  | .firstChild, path => some (path ++ [0])
  | .nextSibling, path => path.getLast?.map fun i => path.dropLast ++ [i + 1]
  | .parent, path => path.getLast?.map fun _ => path.dropLast

/-- From a start that a cursor cannot leave, a move leads to the node at its target, and it
fails if there is none. -/
theorem move?_of_descend? {start c : Cursor} (hstart : start.Confined) {path : List Nat}
    (h : start.descend? path = some c) (m : Move) :
    c.move? m = (m.target? path).bind start.descend? := by
  rcases List.eq_nil_or_concat path with rfl | ⟨front, i, rfl⟩
  · rw [descend?_nil, Option.some.injEq] at h
    subst h
    cases m with
    | firstChild => exact (descend?_concat start [] 0).symm
    | nextSibling => exact hstart.nextSibling
    | parent => exact hstart.parent
  · rw [List.concat_eq_append] at h ⊢
    have hfront := h
    rw [descend?_concat, Option.bind_eq_some_iff] at hfront
    obtain ⟨above, habove, hchild⟩ := hfront
    cases m with
    | firstChild =>
        rw [Move.target?, Option.bind_some, descend?_concat, h]
        rfl
    | nextSibling =>
        have hnext : above.child? (i + 1) = (above.child? i).bind nextSibling? := rfl
        rw [Move.target?, List.getLast?_concat, List.dropLast_concat, Option.map_some,
          Option.bind_some, descend?_concat, habove, Option.bind_some, hnext, hchild]
        rfl
    | parent =>
        rw [Move.target?, List.getLast?_concat, List.dropLast_concat, Option.map_some,
          Option.bind_some, habove]
        exact parent?_of_child? hchild

/-- A move does not leave the nodes below the start. -/
theorem exists_descend?_of_move? {start c next : Cursor} (hstart : start.Confined)
    (hc : ∃ path, start.descend? path = some c) {m : Move} (h : c.move? m = some next) :
    ∃ path, start.descend? path = some next := by
  obtain ⟨path, hpath⟩ := hc
  rw [move?_of_descend? hstart hpath m, Option.bind_eq_some_iff] at h
  obtain ⟨target, _, htarget⟩ := h
  exact ⟨target, htarget⟩

/-- Only at the start there is no way up. -/
theorem eq_of_parent?_none {start c : Cursor}
    (hc : ∃ path, start.descend? path = some c) (h : c.parent? = none) : c = start := by
  obtain ⟨path, hpath⟩ := hc
  rcases List.eq_nil_or_concat path with rfl | ⟨front, i, rfl⟩
  · exact (Option.some.inj hpath).symm
  · rw [List.concat_eq_append, descend?_concat, Option.bind_eq_some_iff] at hpath
    obtain ⟨above, _, hchild⟩ := hpath
    rw [parent?_of_child? hchild] at h
    simp at h

end Cursor

/-! ## The cursor of a walk -/

namespace Walk

/-- A turn makes a move or leaves the cursor where it is. -/
theorem move?_of_turn {w next : Walk} (h : w.turn = .more next) :
    next.cursor = w.cursor ∨ ∃ m, w.cursor.move? m = some next.cursor := by
  unfold turn at h
  cases hr : w.returning with
  | false =>
      simp only [hr, Bool.false_eq_true, if_false, Turn.more.injEq] at h
      subst h
      cases hchild : w.cursor.firstChild? with
      | none =>
          rw [arrive_of_leaf hchild]
          exact .inl (cursor_openRow w)
      | some below =>
          rw [arrive_of_firstChild hchild]
          exact .inr ⟨.firstChild, hchild⟩
  | true =>
      simp only [hr, if_true, comeBack_eq] at h
      cases hright : w.cursor.nextSibling? with
      | some right =>
          simp only [hright, Turn.more.injEq] at h
          subst h
          exact .inr ⟨.nextSibling, hright⟩
      | none =>
          cases hup : w.cursor.parent? with
          | some up =>
              simp only [hright, hup, Turn.more.injEq] at h
              subst h
              exact .inr ⟨.parent, hup⟩
          | none => simp [hright, hup] at h

/-- A walk ends at a node with no sibling to its right and no parent. -/
theorem parent?_of_turn {w last : Walk} (h : w.turn = .done last) :
    last.cursor = w.cursor ∧ w.cursor.nextSibling? = none ∧ w.cursor.parent? = none := by
  unfold turn at h
  cases hr : w.returning with
  | false => simp [hr] at h
  | true =>
      simp only [hr, if_true, comeBack_eq] at h
      cases hright : w.cursor.nextSibling? with
      | some right => simp [hright] at h
      | none =>
          cases hup : w.cursor.parent? with
          | some up => simp [hright, hup] at h
          | none =>
              simp only [hright, hup, Turn.done.injEq] at h
              subst h
              exact ⟨rfl, rfl, rfl⟩

end Walk

/-- A walk from a start that the cursor cannot leave ends at its start. -/
theorem Cursor.cursor_walk_of_confined {c : Cursor} (hc : c.Confined) : c.walk.2 = c := by
  refine Walk.run_induction (P := fun w => ∃ path, c.descend? path = some w.cursor)
    (Q := fun last => last.cursor = c) ?_ ?_ ⟨[], rfl⟩
  · intro w next hw h
    rcases Walk.move?_of_turn h with hsame | ⟨m, hmove⟩
    · rwa [hsame]
    · exact exists_descend?_of_move? hc hw hmove
  · intro w last hw h
    obtain ⟨hlast, _, hup⟩ := Walk.parent?_of_turn h
    rw [hlast]
    exact eq_of_parent?_none hw hup

end TreeListing
