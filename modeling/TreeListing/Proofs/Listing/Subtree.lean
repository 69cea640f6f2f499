import TreeListing.Proofs.Listing.Nesting
import TreeListing.Proofs.Listing.Readability
import TreeListing.Proofs.Tree.Preorder

/-!
# The listing of a subtree

A subtree is listed in the listing of its tree as it is listed on its own, further to the
right.  Its rows are the rows of the places below its root, which are one block of the
pre-order, and so they are one block of the listing.

* `Tree.listing_add` says that a deeper listing has the same rows with more indentation.
* `Tree.getElem?_listing` compares a tree with the tree on its own: no edge leads to its root,
  so its first row has no field.
* `Tree.listing_eq_filterMap` reads the rows of a listing off the places of its tree.
* `render_subtree` is the result.
-/

namespace TreeListing

/-! ## Deeper lines -/

namespace Line

/-- The same line further to the right. -/
def deepen (depth : Nat) (l : Line) : Line :=
  { l with level := depth + l.level }

theorem indentation_add (a b : Nat) :
    indentation (a + b) = indentation a ++ indentation b := by
  rw [indentation, indentation, indentation, Nat.mul_add, ← List.replicate_append_replicate,
    String.ofList_append]

theorem text_deepen (depth : Nat) (l : Line) :
    (l.deepen depth).text = indentation depth ++ l.text := by
  simp only [deepen, text, indentation_add, String.append_assoc]

end Line

theorem Node.line?_add (n : Node) (depth level : Nat) :
    n.line? (depth + level) = (n.line? level).map (Line.deepen depth) := by
  simp [line?, Line.deepen, Function.comp_def]

theorem Forest.lines_add (f : Forest) (depth level : Nat) :
    f.lines (depth + level) = (f.lines level).map (Line.deepen depth) := by
  induction f generalizing level with
  | nil => rfl
  | cons node children siblings ihChildren ihSiblings =>
      rw [lines, lines, Node.line?_add, Nat.add_assoc, ihChildren, ihSiblings, List.map_append,
        List.map_append, Option.toList_map]

/-- Without a field, a line begins with its label. -/
theorem Node.text_of_line? {n : Node} {own : Line}
    (h : ({ n with field := none } : Node).line? 0 = some own) :
    (n.line? 0).map Line.text = some (Line.fieldText n.field ++ own.text) := by
  have hlabel : ({ n with field := none } : Node).label? = n.label? := rfl
  have hflush : Line.indentation 0 = "" := rfl
  simp only [line?, hlabel, Option.map_eq_some_iff] at h ⊢
  obtain ⟨label, hsome, rfl⟩ := h
  exact ⟨_, ⟨label, hsome, rfl⟩, by simp [Line.text, hflush, Line.fieldText, String.append_assoc]⟩

namespace Tree

theorem listing_add (t : Tree) (depth level : Nat) :
    t.listing (depth + level) = (t.listing level).map (Line.indentation depth ++ ·) := by
  have hlines : t.lines (depth + level) = (t.lines level).map (Line.deepen depth) := by
    rw [lines, lines, Node.line?_add, Nat.add_assoc, Forest.lines_add, List.map_append,
      Option.toList_map]
  rw [listing, listing, hlines, List.map_map, List.map_map]
  exact List.map_congr_left fun l _ => l.text_deepen depth

/-! ## On its own -/

/-- The row of the root, and below it the rows of the children. -/
theorem listing_eq_append (t : Tree) (level : Nat) :
    t.listing level =
      ((t.node.line? level).map Line.text).toList ++ t.children.listing (level + 1) := by
  rw [listing, lines, List.map_append, Option.toList_map, Forest.listing]

/-- In the rows of a tree on its own the field of the root is all that is missing. -/
theorem getElem?_listing {t : Tree} {i : Nat} {row : String}
    (h : (t.detached.listing 0)[i]? = some row) :
    (t.listing 0)[i]? =
      some ((if i = 0 ∧ t.node.shown then Line.fieldText t.node.field else "") ++ row) := by
  have hshown : (t.detached.node.line? 0).isSome = t.node.shown :=
    Node.isSome_line? t.detached.node 0
  have hbelow : t.detached.children = t.children := rfl
  rw [listing_eq_append, hbelow] at h
  rw [listing_eq_append]
  cases hline : t.detached.node.line? 0 with
  | none =>
      have hhidden : t.node.shown = false := by rw [← hshown, hline, Option.isSome_none]
      have hnone : t.node.line? 0 = none := by
        rw [← Option.not_isSome_iff_eq_none, Node.isSome_line?, hhidden]
        exact Bool.false_ne_true
      rw [hline, Option.map_none, Option.toList_none, List.nil_append] at h
      simpa [hnone, hhidden] using h
  | some own =>
      have htrue : t.node.shown = true := by rw [← hshown, hline, Option.isSome_some]
      rw [hline, Option.map_some, Option.toList_some, List.singleton_append] at h
      rw [Node.text_of_line? hline, Option.toList_some, List.singleton_append]
      cases i with
      | zero =>
          rw [List.getElem?_cons_zero, Option.some.injEq] at h
          simp [htrue, h]
      | succ i => simpa using h

theorem length_shownOutline_detached (t : Tree) :
    t.detached.shownOutline.length = t.shownOutline.length := by
  have hnode : t.detached.node.shown = t.node.shown := rfl
  have hbelow : t.detached.children = t.children := rfl
  rw [shownOutline, shownOutline, outline, outline, List.filter_cons, List.filter_cons, hnode,
    hbelow]
  cases t.node.shown <;> rfl

/-! ## Rows of places -/

/-- The row of a place in a tree whose root stands at `level`, if the node there is shown. -/
def rowAt? (level : Nat) (t : Tree) (place : List Nat) : Option String :=
  (t.subtree? place).bind fun sub => (sub.node.line? (level + place.length)).map Line.text

/-- The rows of a listing are those of the places, in pre-order. -/
theorem listing_eq_filterMap (t : Tree) (level : Nat) :
    t.listing level = t.places.filterMap (t.rowAt? level) := by
  have hlines : t.lines level = (t.outlineFrom level).filterMap fun e => e.2.line? e.1 := by
    rw [lines, outlineFrom, Forest.lines_eq_filterMap, List.filterMap_cons]
    cases t.node.line? level <;> rfl
  rw [listing, hlines, outlineFrom_eq_filterMap, List.filterMap_filterMap, List.map_filterMap]
  refine List.filterMap_congr fun place _ => ?_
  rw [rowAt?]
  cases t.subtree? place <;> rfl

/-- The rows of a tree on its own at these places, in their order. -/
def rowsAt (t : Tree) (places : List (List Nat)) : List String :=
  places.filterMap (t.detached.rowAt? 0)

/-- Below a node the rows are those of its subtree, as deep as the node is.  Above the root of
the tree there is no edge. -/
theorem rowsAt_map {t sub : Tree} {path : List Nat} (h : t.subtree? path = some sub) :
    t.rowsAt (sub.places.map (path ++ ·)) =
      (if path = [] then sub.detached else sub).listing path.length := by
  have hplaces : (if path = [] then sub.detached else sub).places = sub.places := by
    split <;> rfl
  have hsub : t.detached.subtree? path = some (if path = [] then sub.detached else sub) := by
    cases path with
    | nil => rw [subtree?_nil, ← Option.some.inj (t.subtree?_nil.symm.trans h), if_pos rfl]
    | cons i path => exact h
  rw [rowsAt, listing_eq_filterMap, hplaces, List.filterMap_map]
  refine List.filterMap_congr fun place _ => ?_
  rw [Function.comp_apply, rowAt?, rowAt?, subtree?_append, hsub, Option.bind_some, Nat.zero_add,
    List.length_append]

end Tree

/-- A subtree is one block of the listing of its tree: the rows at the places below its root.
The block has the rows of the subtree on its own, as deep as its root is in the tree, and the
first of them has the field on the edge to the root if the root is shown. -/
theorem render_subtree {t sub : Tree} {path : List Nat} (h : t.subtree? path = some sub) :
    ∃ front back, t.places = front ++ (sub.places.map (path ++ ·) ++ back) ∧
      (∀ place ∈ front ++ back, ¬ path <+: place) ∧
      ∃ block, block = t.rowsAt (sub.places.map (path ++ ·)) ∧
        t.render = t.rowsAt front ++ (block ++ t.rowsAt back) ∧
        block.length = sub.shownOutline.length ∧ sub.render.length = block.length ∧
        ∀ i row, sub.render[i]? = some row →
          block[i]? = some (Line.indentation path.length ++
            ((if i = 0 ∧ sub.node.shown ∧ path ≠ [] then Line.fieldText sub.node.field else "")
              ++ row)) := by
  obtain ⟨front, back, hplaces, hothers⟩ := Tree.exists_places_eq h
  have hblock := Tree.rowsAt_map h
  have hlength : (t.rowsAt (sub.places.map (path ++ ·))).length = sub.shownOutline.length := by
    rw [hblock, ← Nat.add_zero path.length, Tree.listing_add, List.length_map,
      Tree.length_listing]
    split
    · exact sub.length_shownOutline_detached
    · rfl
  have hown : sub.render.length = sub.shownOutline.length := by
    rw [Tree.render_eq_listing, Tree.length_listing, sub.length_shownOutline_detached]
  refine ⟨front, back, hplaces, hothers, _, rfl, ?_, hlength, hown.trans hlength.symm, ?_⟩
  · have hrows : t.render = t.rowsAt t.places := by
      rw [Tree.render_eq_listing, Tree.listing_eq_filterMap]
      rfl
    rw [hrows, hplaces, Tree.rowsAt, List.filterMap_append, List.filterMap_append]
    rfl
  · intro i row hrow
    rw [Tree.render_eq_listing] at hrow
    rw [hblock, ← Nat.add_zero path.length, Tree.listing_add, List.getElem?_map]
    by_cases hroot : path = []
    · simp [hroot, hrow]
    · simp [hroot, Tree.getElem?_listing hrow]

/-- The call in the body is a block of three rows, and its first row has the field in front of
the call. -/
theorem render_subtree_samplePart :
    sampleBody.subtree? [1] = some samplePart ∧
      samplePart.render = ["call [1, 0] - [1, 6]", "  list [1, 4] - [1, 6]",
        "    item: name [1, 5] - [1, 6]"] ∧
      ∃ front back block, sampleBody.render = front ++ (block ++ back) ∧
        block.length = 3 ∧ block[0]? = some "  first: call [1, 0] - [1, 6]" ∧
        block[2]? = some "      item: name [1, 5] - [1, 6]" := by
  have hplace : sampleBody.subtree? [1] = some samplePart := rfl
  have hrows : samplePart.render = ["call [1, 0] - [1, 6]", "  list [1, 4] - [1, 6]",
      "    item: name [1, 5] - [1, 6]"] := by
    rw [Tree.render_eq_listing]
    decide
  obtain ⟨front, back, _, _, block, _, hrender, _, hlength, hblock⟩ := render_subtree hplace
  rw [hrows] at hlength hblock
  refine ⟨hplace, hrows, _, _, block, hrender, hlength.symm, ?_, ?_⟩
  · rw [hblock 0 _ rfl]
    decide
  · rw [hblock 2 _ rfl]
    decide

end TreeListing
