import TreeListing.Proofs.Line.Indentation
import TreeListing.Proofs.Listing.Readability
import TreeListing.Proofs.Tree.Outline
import TreeListing.Proofs.Tree.Pruning

/-!
# A listing shows the tree by its indentation

The rows of a listing are put below one another by their leading spaces alone.  Where
only leaves are hidden, the nest that this gives is the tree without its hidden leaves.

* `Outline.rows` are the rows of the shown nodes of an outline, and a listing is the rows
  of its outline.
* `levelled_prune` says that the rows of the shown nodes are nested two spaces deeper with
  each edge.
* `render_nests_rows` is the result: the rebuilt nest, the parent of each row, and the run
  of rows that belongs to each shown node.
-/

namespace TreeListing

/-! ## Rows -/

/-- The row of a node at a level.  A node that is not shown has none. -/
def Node.row (level : Nat) (n : Node) : String :=
  match n.line? level with
  | some l => l.text
  | none => ""

/-- The rows of the shown nodes of an outline. -/
def Outline.rows (outline : List (Nat × Node)) : List String :=
  (outline.filter fun e => e.2.shown).map fun e => e.2.row e.1

theorem Outline.rows_append (outline rest : List (Nat × Node)) :
    rows (outline ++ rest) = rows outline ++ rows rest := by
  simp [rows]

theorem Outline.rows_eq_filterMap (outline : List (Nat × Node)) :
    rows outline = (outline.filterMap fun e => e.2.line? e.1).map Line.text := by
  induction outline with
  | nil => rfl
  | cons e outline ih =>
      have hshown := Node.isSome_line? e.2 e.1
      rw [rows] at ih
      cases h : e.2.line? e.1 with
      | none =>
          rw [h] at hshown
          simp [rows, h, ← hshown, ih]
      | some l =>
          have hrow : e.2.row e.1 = l.text := by
            rw [Node.row, h]
          rw [h] at hshown
          simp [rows, h, ← hshown, ih, hrow]

theorem Forest.listing_eq_rows (f : Forest) (level : Nat) :
    f.listing level = Outline.rows (f.outline level) := by
  rw [listing, lines_eq_filterMap, Outline.rows_eq_filterMap]

theorem Tree.listing_eq_rows (t : Tree) : t.listing 0 = Outline.rows t.outline := by
  rw [listing, lines_eq_filterMap, Outline.rows_eq_filterMap]

/-- The row of a shown node starts with two spaces for each level and no more. -/
theorem Node.leadingSpaces_row {n : Node} (hn : n.Flush) (hshown : n.shown = true)
    (level : Nat) : leadingSpaces (n.row level) = 2 * level := by
  obtain ⟨l, hl⟩ := Option.isSome_iff_exists.mp ((n.isSome_line? level).trans hshown)
  have hnode : l.node = n := Line.node_of_line? hl
  have hlevel : l.level = level := level_of_line? hl
  rw [row, hl, Line.leadingSpaces_text (hnode ▸ hn), hlevel]

/-! ## Rebuilding -/

/-- A tree in which the text of every shown node starts flush. -/
def Tree.Flush (t : Tree) : Prop :=
  ∀ e ∈ t.outline, e.2.shown = true → e.2.Flush

instance (t : Tree) : Decidable t.Flush :=
  inferInstanceAs (Decidable (∀ e ∈ t.outline, e.2.shown = true → e.2.Flush))

namespace Tree

theorem Flush.leadingSpaces_row {t : Tree} (ht : t.Flush) {e : Nat × Node}
    (he : e ∈ t.outline) (hshown : e.2.shown = true) :
    leadingSpaces (e.2.row e.1) = 2 * e.1 :=
  Node.leadingSpaces_row (ht e he hshown) hshown e.1

/-- Without the hidden leaves every node has a row, and these rows are the listing. -/
theorem labels_prune {t : Tree} (ht : t.HiddenLeaves) :
    (t.forest.prune.nest Node.row 0).labels = t.listing 0 := by
  rw [Forest.labels_nest, Forest.HiddenLeaves.outline_prune ht, outline_forest,
    listing_eq_rows, Outline.rows]

/-- Each edge indents by two spaces. -/
theorem levelled_prune {t : Tree} (ht : t.HiddenLeaves) (hflush : t.Flush) :
    (t.forest.prune.nest Node.row 0).Levelled leadingSpaces 2 0 := by
  rw [← Nat.mul_zero 2]
  refine Forest.levelled_nest fun e he => ?_
  rw [Forest.HiddenLeaves.outline_prune ht, outline_forest] at he
  obtain ⟨houtline, hshown⟩ := List.mem_filter.mp he
  exact hflush.leadingSpaces_row houtline hshown

/-- The leading spaces of the rows rebuild the tree without its hidden leaves. -/
theorem ofList_listing {t : Tree} (ht : t.HiddenLeaves) (hflush : t.Flush) :
    Nest.ofList leadingSpaces (t.listing 0) = t.forest.prune.nest Node.row 0 := by
  rw [← labels_prune ht]
  exact Nest.ofList_labels (by decide) (levelled_prune ht hflush)

/-- Every row but the first is indented one unit deeper than the nearest earlier row of
smaller indentation. -/
theorem exists_parent_row {t : Tree} (ht : t.HiddenLeaves) (hflush : t.Flush)
    {before after : List String} {row : String}
    (h : t.listing 0 = before ++ row :: after) (hbefore : before ≠ []) :
    ∃ parent, before.reverse.find? (fun r => leadingSpaces r < leadingSpaces row) = some parent ∧
      leadingSpaces row = leadingSpaces parent + 2 := by
  have hlevelled := levelled_prune ht hflush
  rw [← labels_prune ht] at h
  cases hshown : t.node.shown with
  | false =>
      have hnil : t.forest.prune = .nil := by
        simp [forest, Forest.prune, hshown, ht.1 hshown]
      simp [hnil, Forest.nest, Nest.labels] at h
  | true =>
      have hcons : t.forest.prune = .cons t.node t.children.prune .nil := by
        simp [forest, Forest.prune, hshown]
      rw [hcons, Forest.nest, Forest.nest] at h hlevelled
      exact hlevelled.exists_find?_of_root (by decide) h hbefore

/-! ## Runs of deeper rows -/

theorem Flush.exists_of_mem_rows {t : Tree} (ht : t.Flush) {outline : List (Nat × Node)}
    (hsub : outline ⊆ t.outline) {r : String} (hr : r ∈ Outline.rows outline) :
    ∃ e ∈ outline, leadingSpaces r = 2 * e.1 := by
  obtain ⟨e, he, rfl⟩ := List.mem_map.mp hr
  obtain ⟨hmem, hshown⟩ := List.mem_filter.mp he
  exact ⟨e, hmem, ht.leadingSpaces_row (hsub hmem) hshown⟩

/-- The first row behind a subtree is not deeper than the root of the subtree. -/
theorem leadingSpaces_head?_behind {t sub : Tree} (ht : t.HiddenLeaves) (hflush : t.Flush)
    {path : List Nat} (h : t.subtree? path = some sub) :
    ∀ r ∈ (Outline.rows (t.behind 0 path)).head?, leadingSpaces r ≤ 2 * path.length := by
  intro r hr
  rw [Outline.rows, List.head?_map, Option.mem_def, Option.map_eq_some_iff] at hr
  obtain ⟨e, he, rfl⟩ := hr
  obtain ⟨hmem, hshown⟩ := List.mem_filter.mp (List.mem_of_mem_head? he)
  have hlevel := ht.le_of_mem_head?_behind h e he
  have hspaces := hflush.leadingSpaces_row (by simp [outline_eq_of_subtree? h, hmem]) hshown
  omega

/-- The rows directly behind the row of a shown node that are deeper than it are the rows
of the nodes below it. -/
theorem takeWhile_rows {t sub : Tree} (ht : t.HiddenLeaves) (hflush : t.Flush)
    {path : List Nat} (h : t.subtree? path = some sub) (hshown : sub.node.shown = true) :
    ∃ after, t.listing 0 =
        Outline.rows (t.before 0 path) ++ sub.node.row path.length :: after ∧
      (after.takeWhile fun r => leadingSpaces (sub.node.row path.length) < leadingSpaces r) =
        sub.children.listing (path.length + 1) := by
  have houtline := outline_eq_of_subtree? h
  have hrow : leadingSpaces (sub.node.row path.length) = 2 * path.length := by
    have hmem : (path.length, sub.node) ∈ t.outline := by simp [houtline]
    exact Node.leadingSpaces_row (hflush _ hmem hshown) hshown path.length
  have hbelow : ∀ r ∈ Outline.rows (sub.children.outline (path.length + 1)),
      decide (leadingSpaces (sub.node.row path.length) < leadingSpaces r) = true := by
    intro r hr
    obtain ⟨e, he, hspaces⟩ :=
      hflush.exists_of_mem_rows (fun e he => by simp [houtline, he]) hr
    have hdeeper := Forest.le_of_mem_outline he
    rw [decide_eq_true_eq]
    omega
  have hbehind : ∀ r ∈ (Outline.rows (t.behind 0 path)).head?,
      decide (leadingSpaces (sub.node.row path.length) < leadingSpaces r) = false := by
    intro r hr
    have := leadingSpaces_head?_behind ht hflush h r hr
    rw [decide_eq_false_iff_not]
    omega
  refine ⟨Outline.rows (sub.children.outline (path.length + 1)) ++
    Outline.rows (t.behind 0 path), ?_, ?_⟩
  · rw [listing_eq_rows, houtline, Outline.rows_append]
    simp [Outline.rows, hshown]
  · rw [(takeWhile_append_of_head? hbelow hbehind).1, Forest.listing_eq_rows]

end Tree

/-- Where only leaves are hidden and the text of every line starts flush, the rows of a
listing rebuild the tree without its hidden leaves, by their leading spaces alone.  Every
row but the first is indented one unit deeper than the nearest earlier row of smaller
indentation, and the rows of the nodes below a shown node are the longest run of deeper
rows directly behind its own. -/
theorem render_nests_rows (c : Cursor) (hc : c.Confined) (hleaves : c.subtree.HiddenLeaves)
    (hflush : c.subtree.Flush) :
    ∃ rows last, c.render = .ok (rows, last) ∧
      Nest.ofList leadingSpaces rows = c.subtree.forest.prune.nest Node.row 0 ∧
      (∀ before row after, rows = before ++ row :: after → before ≠ [] →
        ∃ parent,
          before.reverse.find? (fun r => leadingSpaces r < leadingSpaces row) = some parent ∧
            leadingSpaces row = leadingSpaces parent + 2) ∧
      ∀ path sub, c.subtree.subtree? path = some sub → sub.node.shown = true →
        ∃ after,
          rows = Outline.rows (c.subtree.before 0 path) ++ sub.node.row path.length :: after ∧
            (after.takeWhile fun r =>
              leadingSpaces (sub.node.row path.length) < leadingSpaces r) =
                sub.children.listing (path.length + 1) := by
  obtain ⟨last, hrender⟩ := Cursor.render_of_confined hc
  refine ⟨_, last, hrender, Tree.ofList_listing hleaves hflush, ?_, ?_⟩
  · intro before row after hrows hbefore
    exact Tree.exists_parent_row hleaves hflush hrows hbefore
  · intro path sub hsub hshown
    exact Tree.takeWhile_rows hleaves hflush hsub hshown

/-- A call with a token at the head of its list. -/
def samplePart : Tree :=
  ⟨⟨"call", true, false, some "first", ⟨1, 0⟩, ⟨1, 6⟩⟩,
    .cons ⟨"list", true, false, none, ⟨1, 4⟩, ⟨1, 6⟩⟩
      (.cons ⟨"(", false, false, none, ⟨1, 4⟩, ⟨1, 5⟩⟩ .nil
        (.cons ⟨"name", true, false, some "item", ⟨1, 5⟩, ⟨1, 6⟩⟩ .nil .nil)) .nil⟩

/-- A body with the call between two tokens, and a missing token at its end. -/
def sampleBody : Tree :=
  ⟨⟨"body", true, false, none, ⟨0, 0⟩, ⟨2, 0⟩⟩,
    .cons ⟨"(", false, false, none, ⟨0, 0⟩, ⟨0, 1⟩⟩ .nil
      (.cons samplePart.node samplePart.children
        (.cons ⟨",", false, false, none, ⟨1, 6⟩, ⟨1, 7⟩⟩ .nil
          (.cons ⟨")", false, true, none, ⟨2, 0⟩, ⟨2, 0⟩⟩ .nil .nil)))⟩

/-- The missing token stands beside the call again, two levels up. -/
theorem render_nests_sampleBody :
    (Cursor.atRoot sampleBody).Confined ∧ sampleBody.HiddenLeaves ∧ sampleBody.Flush ∧
      ∃ rows last, (Cursor.atRoot sampleBody).render = .ok (rows, last) ∧
        Nest.ofList leadingSpaces rows =
          .cons "body [0, 0] - [2, 0]"
            (.cons "  first: call [1, 0] - [1, 6]"
              (.cons "    list [1, 4] - [1, 6]"
                (.cons "      item: name [1, 5] - [1, 6]" .nil .nil) .nil)
              (.cons "  MISSING \")\" [2, 0] - [2, 0]" .nil .nil)) .nil ∧
        ∃ after, rows = ["body [0, 0] - [2, 0]"] ++ "  first: call [1, 0] - [1, 6]" :: after ∧
          (after.takeWhile fun r => leadingSpaces "  first: call [1, 0] - [1, 6]" <
            leadingSpaces r) =
              ["    list [1, 4] - [1, 6]", "      item: name [1, 5] - [1, 6]"] := by
  have hconfined := Cursor.confined_atRoot sampleBody
  have hleaves : sampleBody.HiddenLeaves := by decide
  have hflush : sampleBody.Flush := by decide
  have hbefore : Outline.rows (sampleBody.before 0 [1]) = ["body [0, 0] - [2, 0]"] := by decide
  have hrow : samplePart.node.row 1 = "  first: call [1, 0] - [1, 6]" := by decide
  have hbelow : samplePart.children.listing 2 =
      ["    list [1, 4] - [1, 6]", "      item: name [1, 5] - [1, 6]"] := by decide
  obtain ⟨rows, last, hrender, hnest, _, hruns⟩ :=
    render_nests_rows _ hconfined hleaves hflush
  obtain ⟨after, hrows, hrun⟩ := hruns [1] samplePart rfl rfl
  refine ⟨hconfined, hleaves, hflush, rows, last, hrender, ?_, after, ?_, ?_⟩
  · rw [hnest]
    decide
  · rw [← hbefore, ← hrow]
    exact hrows
  · rw [← hbelow, ← hrow]
    exact hrun

end TreeListing
