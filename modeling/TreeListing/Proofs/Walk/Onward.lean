import TreeListing.Proofs.Tree.Places
import TreeListing.Proofs.Walk.Reference

/-!
# A walk that can leave its start

A cursor within a tree may report depth zero below the root.  The walk from there does
not stop at the end of its subtree: it goes on to the right, climbs, and goes on to the
right of each node above.  The level is zero at the start and a climb never takes it
below zero, so the level is zero again at every node to the right of the way up.

The climb passes nodes whose rows were never opened.  Coming back to such a node
completes no row (`Walk.fullListing_passed`), so it has no line in the listing.
`linesAfter_zero` unfolds what lies ahead of the climb, and `render_within` is the
listing.
-/

namespace TreeListing

theorem Forest.flatMap_lines_trees (f : Forest) (level : Nat) :
    f.trees.flatMap (Tree.lines level) = f.lines level := by
  induction f with
  | nil => rfl
  | cons node children siblings _ ih =>
      rw [Forest.lines, ← ih, Forest.trees, List.flatMap_cons, Tree.lines]

/-- Above a start at level zero every level is zero. -/
theorem Walk.linesAfter_zero (siblings : Forest) (above : List Position) :
    Walk.linesAfter 0 siblings above =
      (siblings :: above.map Position.siblings).flatMap (Forest.lines 0) := by
  induction above generalizing siblings with
  | nil => simp [Walk.linesAfter]
  | cons p above ih =>
      rw [Walk.linesAfter, ih p.siblings]
      simp

/-- A walk that starts anywhere in a tree at level zero lists the subtree there, then all
trees to the right of its start, then those to the right of each node above it, each
of them from level zero.  Nothing else has a row: no node above, nothing to the left. -/
theorem render_within (t sub : Tree) (path : List Nat) (hheight : t.height < Line.levelLimit)
    (hsub : t.subtree? path = some sub) :
    ∃ c rows last, Cursor.within? t path 0 = some c ∧ c.render = .ok (rows, last) ∧
      (sub.lines 0 ++ (t.rightOf path).flatMap fun f =>
        f.trees.flatMap (Tree.lines 0)).mapM Line.text? = some rows ∧
      "" ∉ rows := by
  obtain ⟨c, hwithin, hdepth, rfl, hright⟩ := Cursor.exists_within? hsub 0
  have hrows : c.walk.1 = (c.subtree.lines 0 ++ (t.rightOf path).flatMap fun f =>
      f.trees.flatMap (Tree.lines 0)).map Line.text := by
    have hwalk := Cursor.rows_walk c
    rw [Walk.linesAfter_zero, hright] at hwalk
    simpa [Forest.flatMap_lines_trees, Forest.lines] using hwalk
  refine ⟨c, c.walk.1, c.walk.2, hwithin, Cursor.render_of_depth hdepth, ?_, ?_⟩
  · rw [hrows]
    refine mapM_text? fun l hl => ?_
    simp only [Forest.flatMap_lines_trees, List.mem_append, List.mem_flatMap] at hl
    rcases hl with hl | ⟨f, hf, hl⟩
    · have := Tree.level_le_of_mem_lines hl
      have := Tree.height_le_of_subtree? hsub
      omega
    · have := Forest.level_lt_of_mem_lines hl
      have := Tree.height_le_of_mem_rightOf hf
      omega
  · rw [hrows]
    exact not_mem_map_text _

/-- From the argument of the sample call the walk climbs through the token and the call
and lists neither. -/
theorem render_within_sampleCall :
    sampleCall.height < Line.levelLimit ∧ (sampleCall.subtree? [0, 0]).isSome ∧
      ∃ c last, Cursor.within? sampleCall [0, 0] 0 = some c ∧
        c.render = .ok (["argument: name [0, 5] - [0, 9]",
          "MISSING \";\" [0, 12] - [0, 12]"], last) := by
  have hheight : sampleCall.height < Line.levelLimit := by decide
  have hsub : sampleCall.subtree? [0, 0] =
      some ⟨⟨"name", true, false, some "argument", ⟨0, 5⟩, ⟨0, 9⟩⟩, .nil⟩ := rfl
  obtain ⟨c, rows, last, hwithin, hrender, hrows, _⟩ := render_within _ _ _ hheight hsub
  have hlines : some rows = some ["argument: name [0, 5] - [0, 9]",
      "MISSING \";\" [0, 12] - [0, 12]"] := hrows.symm.trans (by decide)
  refine ⟨hheight, by rw [hsub]; rfl, c, last, hwithin, ?_⟩
  rw [hrender, Option.some.inj hlines]

end TreeListing
