import TreeListing.Listing

/-!
# Levels of lines

How deep the lines of a tree are indented.  A line's level is the number of edges from
the root to its node, so it is never above the height of the tree.  The indentation of
every line therefore fits in a string as soon as the tree is not higher than the level
limit, and then the recursive listing is written in full.

* `level_lt_of_mem_lines` and `level_le_of_mem_lines` bound the levels.
* `mapM_text?` writes all lines whose levels are below the limit.
-/

namespace TreeListing

theorem Node.level_of_line? {n : Node} {level : Nat} {l : Line}
    (h : n.line? level = some l) : l.level = level := by
  simp only [Node.line?, Option.map_eq_some_iff] at h
  obtain ⟨label, _, rfl⟩ := h
  rfl

/-- A forest has no lines at its height or below. -/
theorem Forest.level_lt_of_mem_lines {f : Forest} {level : Nat} {l : Line}
    (h : l ∈ f.lines level) : l.level < level + f.height := by
  induction f generalizing level with
  | nil => simp [Forest.lines] at h
  | cons node children siblings ihChildren ihSiblings =>
      simp only [Forest.lines, List.mem_append, Option.mem_toList] at h
      simp only [Forest.height]
      rcases h with (hown | hchild) | hsibling
      · have := Node.level_of_line? hown
        omega
      · have := ihChildren hchild
        omega
      · have := ihSiblings hsibling
        omega

/-- A tree has no line below its height. -/
theorem Tree.level_le_of_mem_lines {t : Tree} {level : Nat} {l : Line}
    (h : l ∈ t.lines level) : l.level ≤ level + t.height := by
  simp only [Tree.lines, List.mem_append, Option.mem_toList] at h
  simp only [Tree.height]
  rcases h with hown | hchild
  · have := Node.level_of_line? hown
    omega
  · have := Forest.level_lt_of_mem_lines hchild
    omega

/-- Lines are all written when none is indented to the limit. -/
theorem mapM_text? {lines : List Line} (h : ∀ l ∈ lines, l.level < Line.levelLimit) :
    lines.mapM Line.text? = some (lines.map Line.text) := by
  induction lines with
  | nil => rfl
  | cons l lines ih =>
      have hl : l.text? = some l.text := by
        simp [Line.text?, h l List.mem_cons_self]
      simp [hl, ih fun l' h' => h l' (List.mem_cons_of_mem _ h')]

end TreeListing
