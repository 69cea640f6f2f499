import TreeListing.Proofs.Tree.Levels
import TreeListing.Proofs.Walk.Conservation
import TreeListing.Proofs.Work.Run

/-!
# A walk lists its subtree

Listing from a cursor that cannot leave its start writes the recursive listing of the
subtree there.  The walk keeps no record of the way down, so this rests on the balance
of `Walk.fullListing`: at the start nothing is listed yet, and what lies ahead is the
subtree alone.

`rows_walk` says what a walk from any cursor lists.  `Cursor.Confined` names the
cursors that cannot leave their start, `render_of_confined` is their listing, and
`render_writes_lines` says the same of every way to list a tree, with each line written
in full.
-/

namespace TreeListing

namespace Cursor

/-! ## Confined cursors -/

/-- A cursor that stands where it started and cannot leave the subtree there. -/
structure Confined (c : Cursor) : Prop where
  depth : c.depth = 0
  nextSibling : c.nextSibling? = none
  parent : c.parent? = none

theorem confined_atRoot (t : Tree) : (atRoot t).Confined :=
  ⟨rfl, rfl, rfl⟩

theorem confined_confinedTo (t : Tree) : (confinedTo t).Confined :=
  ⟨rfl, rfl, rfl⟩

theorem siblings_of_nextSibling? {c : Cursor} (h : c.nextSibling? = none) :
    c.here.siblings = .nil := by
  unfold nextSibling? at h
  split at h
  · assumption
  · simp at h

theorem above_of_parent? {c : Cursor} (h : c.parent? = none) : c.above = [] := by
  unfold parent? at h
  split at h
  · assumption
  · simp at h

theorem Confined.siblings {c : Cursor} (hc : c.Confined) : c.here.siblings = .nil :=
  siblings_of_nextSibling? hc.nextSibling

theorem Confined.above {c : Cursor} (hc : c.Confined) : c.above = [] :=
  above_of_parent? hc.parent

/-! ## The rows of a walk -/

/-- A walk lists the subtree that it starts at, then what lies to the right of it and
of the nodes above it. -/
theorem rows_walk (c : Cursor) :
    c.walk.1 =
      (c.subtree.lines 0 ++ Walk.linesAfter 0 c.here.siblings c.above).map Line.text := by
  have h := Walk.finish_run (Walk.settled_start c)
  rw [Walk.fullListing, Walk.listed_start, List.nil_append] at h
  exact h

theorem render_of_depth {c : Cursor} (h : c.depth = 0) : c.render = .ok c.walk := by
  simp [render, h]

theorem rows_walk_of_confined {c : Cursor} (hc : c.Confined) :
    c.walk.1 = c.subtree.listing 0 := by
  rw [rows_walk, hc.siblings, hc.above]
  simp [Walk.linesAfter, Forest.lines, Tree.listing]

/-- A confined cursor is listed, and its listing is the recursive one of its subtree. -/
theorem render_of_confined {c : Cursor} (hc : c.Confined) :
    ∃ last, c.render = .ok (c.subtree.listing 0, last) :=
  ⟨c.walk.2, by rw [render_of_depth hc.depth, ← rows_walk_of_confined hc]⟩

end Cursor

namespace Tree

/-! ## Written listings -/

/-- A tree on its own.  No edge leads to its root, so its root has no field. -/
def detached (t : Tree) : Tree :=
  ⟨{ t.node with field := none }, t.children⟩

theorem render_eq_listing (t : Tree) : t.render = t.detached.listing 0 :=
  Cursor.rows_walk_of_confined (Cursor.confined_confinedTo t)

/-- The recursive listing of a tree below the level limit is written in full. -/
theorem mapM_text?_lines {t : Tree} (h : t.height < Line.levelLimit) :
    (t.lines 0).mapM Line.text? = some (t.listing 0) := by
  refine mapM_text? fun l hl => ?_
  have := level_le_of_mem_lines hl
  omega

end Tree

/-- No row of a listing is empty. -/
theorem not_mem_map_text (lines : List Line) : "" ∉ lines.map Line.text := by
  intro h
  obtain ⟨l, _, hl⟩ := List.mem_map.mp h
  have hempty := Line.isEmpty_text l
  rw [hl] at hempty
  simp at hempty

/-- Every way to list a tree from a start that the cursor cannot leave gives the lines of
the recursive listing, each written in full: from a confined cursor, from a tree on its
own, and from a source text that has been parsed. -/
theorem render_writes_lines :
    (∀ c : Cursor, c.Confined → c.subtree.height < Line.levelLimit →
      ∃ rows last, c.render = .ok (rows, last) ∧
        (c.subtree.lines 0).mapM Line.text? = some rows) ∧
    (∀ t : Tree, t.height < Line.levelLimit →
      (∃ rows last, (Cursor.atRoot t).render = .ok (rows, last) ∧
        (t.lines 0).mapM Line.text? = some rows) ∧
      (t.detached.lines 0).mapM Line.text? = some t.render) ∧
    (∀ (grammars : Grammars) (source : String) (language : Language) (w after : Workspace)
      (p : Parse), (Work.parse grammars source language).runIn w = (.ok p, after) →
      p.tree.height < Line.levelLimit →
      ∃ rows log, (Work.render grammars source language).runIn w =
          (.ok rows, { after with log }) ∧
        (p.tree.detached.lines 0).mapM Line.text? = some rows) := by
  have hconfined : ∀ c : Cursor, c.Confined → c.subtree.height < Line.levelLimit →
      ∃ rows last, c.render = .ok (rows, last) ∧
        (c.subtree.lines 0).mapM Line.text? = some rows := by
    intro c hc hheight
    obtain ⟨last, hrender⟩ := Cursor.render_of_confined hc
    exact ⟨_, last, hrender, Tree.mapM_text?_lines hheight⟩
  refine ⟨hconfined, ?_, ?_⟩
  · intro t hheight
    refine ⟨hconfined _ (Cursor.confined_atRoot t) hheight, ?_⟩
    rw [Tree.render_eq_listing]
    exact Tree.mapM_text?_lines hheight
  · intro grammars source language w after p hparse hheight
    obtain ⟨rows, last, hrender, hrows⟩ :=
      hconfined _ (Cursor.confined_confinedTo p.tree) hheight
    obtain ⟨log, hlist⟩ := Work.runIn_list hrender after
    exact ⟨rows, log, (Work.runIn_render hparse).trans hlist, hrows⟩

/-- A call whose opening token hides its argument, with a missing token at its end. -/
def sampleCall : Tree :=
  ⟨⟨"call", true, false, some "body", ⟨0, 0⟩, ⟨0, 12⟩⟩,
    .cons ⟨"(", false, false, none, ⟨0, 4⟩, ⟨0, 11⟩⟩
      (.cons ⟨"name", true, false, some "argument", ⟨0, 5⟩, ⟨0, 9⟩⟩ .nil .nil)
      (.cons ⟨";", false, true, none, ⟨0, 12⟩, ⟨0, 12⟩⟩ .nil .nil)⟩

/-- A grammar that finds the sample call in every source text. -/
def sampleGrammar : Grammar :=
  ⟨fun _ => some ⟨sampleCall, false⟩⟩

/-- The token has no line but its depth counts, and a tree on its own shows no field at
its root. -/
theorem render_sampleCall :
    (Cursor.atRoot sampleCall).Confined ∧ sampleCall.height < Line.levelLimit ∧
      (∃ last, (Cursor.atRoot sampleCall).render =
        .ok (["body: call [0, 0] - [0, 12]", "    argument: name [0, 5] - [0, 9]",
          "  MISSING \";\" [0, 12] - [0, 12]"], last)) ∧
      (∃ after, (Work.parse (fun _ => .ok sampleGrammar) "go(it" .swift).runIn {} =
        (.ok ⟨sampleCall, false⟩, after)) ∧
      ∃ after, (Work.render (fun _ => .ok sampleGrammar) "go(it" .swift).runIn {} =
        (.ok ["call [0, 0] - [0, 12]", "    argument: name [0, 5] - [0, 9]",
          "  MISSING \";\" [0, 12] - [0, 12]"], after) := by
  have hconfined := Cursor.confined_atRoot sampleCall
  have hheight : sampleCall.height < Line.levelLimit := by decide
  have hlines : (sampleCall.lines 0).mapM Line.text? =
      some ["body: call [0, 0] - [0, 12]", "    argument: name [0, 5] - [0, 9]",
        "  MISSING \";\" [0, 12] - [0, 12]"] := by decide
  have hdetached : (sampleCall.detached.lines 0).mapM Line.text? =
      some ["call [0, 0] - [0, 12]", "    argument: name [0, 5] - [0, 9]",
        "  MISSING \";\" [0, 12] - [0, 12]"] := by decide
  have hparse : ∃ after, (Work.parse (fun _ => .ok sampleGrammar) "go(it" .swift).runIn {} =
      (.ok ⟨sampleCall, false⟩, after) := ⟨_, rfl⟩
  obtain ⟨rows, last, hrender, hrows⟩ := render_writes_lines.1 _ hconfined hheight
  obtain ⟨after, hafter⟩ := hparse
  obtain ⟨rows', log, hrun, hrows'⟩ := render_writes_lines.2.2 _ _ _ _ _ _ hafter hheight
  have hsame := Option.some.inj (hrows.symm.trans hlines)
  have hsame' := Option.some.inj (hrows'.symm.trans hdetached)
  refine ⟨hconfined, hheight, ⟨last, ?_⟩, ⟨after, hafter⟩, { after with log }, ?_⟩
  · rw [hrender, hsame]
  · rw [hrun, hsame']

end TreeListing
