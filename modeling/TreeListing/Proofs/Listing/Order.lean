import TreeListing.Proofs.Line.Positions
import TreeListing.Proofs.Listing.Subtree
import TreeListing.Proofs.Tree.Ranges

/-!
# A listing is in source order

Where the ranges of a tree fit together node by node, its listing can be read along the source
text.  Between two rows there may be any number of hidden nodes and of edges up and down; what is
said about nodes in `Tree.InOrder.within_or_apart` does not depend on these.

`Tree.shownPlaces` lists the shown nodes with their places, one for each row, and
`render_in_source_order` is the result.
-/

namespace TreeListing

namespace Tree

/-- The shown nodes of a tree in pre-order, each with the child indices that lead to it. -/
def shownPlaces (t : Tree) : List (List Nat × Node) :=
  t.places.filterMap fun place =>
    (t.subtree? place).bind fun sub => if sub.node.shown then some (place, sub.node) else none

/-- The rows of a listing are those of the shown nodes. -/
theorem listing_eq_map_shownPlaces (t : Tree) :
    t.listing 0 = t.shownPlaces.map fun e => e.2.row e.1.length := by
  rw [listing_eq_filterMap, shownPlaces, List.map_filterMap]
  refine List.filterMap_congr fun place _ => ?_
  rw [rowAt?, Nat.zero_add]
  cases t.subtree? place with
  | none => rfl
  | some sub =>
      have hshown := sub.node.isSome_line? place.length
      cases hline : sub.node.line? place.length with
      | none =>
          rw [hline, Option.isSome_none] at hshown
          simp [hline, ← hshown]
      | some l =>
          rw [hline, Option.isSome_some] at hshown
          simp [hline, ← hshown, Node.row]

theorem exists_of_mem_shownPlaces {t : Tree} {e : List Nat × Node} (h : e ∈ t.shownPlaces) :
    ∃ sub, t.subtree? e.1 = some sub ∧ e.2 = sub.node ∧ e.2.shown = true := by
  obtain ⟨place, _, hsome⟩ := List.mem_filterMap.mp h
  obtain ⟨sub, hsub, hshown⟩ := Option.bind_eq_some_iff.mp hsome
  split at hshown
  · rename_i hnode
    obtain rfl := Option.some.inj hshown
    exact ⟨sub, hsub, rfl, hnode⟩
  · simp at hshown

end Tree

/-- The range on the row of a shown node is the range of the node. -/
theorem Node.readRange?_row {n : Node} (hshown : n.shown = true) (level : Nat) :
    (Line.readRange? (n.row level).toList).map Prod.snd = some (n.start, n.stop) := by
  obtain ⟨l, hl⟩ := Option.isSome_iff_exists.mp ((n.isSome_line? level).trans hshown)
  have hrange : l.start = n.start ∧ l.stop = n.stop := by
    obtain ⟨label, _, rfl⟩ := Option.map_eq_some_iff.mp hl
    exact ⟨rfl, rfl⟩
  have hread := Line.readRange?_append_rangeText l.head.toList l.start l.stop
  rw [← Line.toList_text_eq_head] at hread
  rw [row, hl]
  simp only [hread, Option.map_some, hrange]

/-- Where ranges fit together node by node, a listing is in source order: the positions that its
rows show never go back, and of two rows either the later node lies below the earlier one with its
range inside, or the earlier range ends before the later one starts. -/
theorem render_in_source_order (c : Cursor) (hc : c.Confined) (ht : c.subtree.InOrder) :
    ∃ rows last, c.render = .ok (rows, last) ∧
      rows = (c.subtree.shownPlaces.map fun e => e.2.row e.1.length) ∧
      (rows.map fun row => (Line.readRange? row.toList).map Prod.snd) =
        (c.subtree.shownPlaces.map fun e => some (e.2.start, e.2.stop)) ∧
      c.subtree.shownPlaces.Pairwise fun e later =>
        e.2.start ≤ later.2.start ∧
          (e.1 <+: later.1 ∧ e.1 ≠ later.1 ∧
              e.2.start ≤ later.2.start ∧ later.2.stop ≤ e.2.stop ∨
            e.2.stop ≤ later.2.start) := by
  obtain ⟨last, hrender⟩ := Cursor.render_of_confined hc
  refine ⟨_, last, hrender, c.subtree.listing_eq_map_shownPlaces, ?_, ?_⟩
  · rw [c.subtree.listing_eq_map_shownPlaces, List.map_map]
    refine List.map_congr_left fun e he => ?_
    obtain ⟨_, _, _, hshown⟩ := Tree.exists_of_mem_shownPlaces he
    exact Node.readRange?_row hshown e.1.length
  · have hplaces : c.subtree.shownPlaces.Pairwise fun e later => e.1 < later.1 := by
      refine List.Pairwise.filterMap _ ?_ c.subtree.pairwise_lt_places
      intro place later hlt e he e' he'
      obtain ⟨_, _, he⟩ := Option.bind_eq_some_iff.mp he
      obtain ⟨_, _, he'⟩ := Option.bind_eq_some_iff.mp he'
      split at he
      · split at he'
        · rw [← Option.some.inj he, ← Option.some.inj he']
          exact hlt
        · simp at he'
      · simp at he
    refine hplaces.imp_of_mem fun {e later} he hlater hlt => ?_
    obtain ⟨sub, hsub, hnode, _⟩ := Tree.exists_of_mem_shownPlaces he
    obtain ⟨other, hother, hnode', _⟩ := Tree.exists_of_mem_shownPlaces hlater
    have hforward := (ht.subtree hsub).fits.forward
    rw [hnode, hnode']
    rcases ht.within_or_apart hlt hsub hother with ⟨habove, hrange⟩ | hapart
    · have hne : e.1 ≠ later.1 := fun heq => by
        rw [heq] at hlt
        exact List.lt_irrefl _ hlt
      exact ⟨hrange.1, .inl ⟨habove, hne, hrange⟩⟩
    · exact ⟨Point.le_trans hforward hapart, .inr hapart⟩

/-- The call follows a hidden parenthesis, its argument lies inside it, and the missing token of
no width follows all of these. -/
theorem render_in_source_order_sampleBody :
    (Cursor.atRoot sampleBody).Confined ∧ sampleBody.InOrder ∧
      ∃ rows last, (Cursor.atRoot sampleBody).render = .ok (rows, last) ∧
        (rows.map fun row => (Line.readRange? row.toList).map Prod.snd) =
          [some (⟨0, 0⟩, ⟨2, 0⟩), some (⟨1, 0⟩, ⟨1, 6⟩), some (⟨1, 4⟩, ⟨1, 6⟩),
            some (⟨1, 5⟩, ⟨1, 6⟩), some (⟨2, 0⟩, ⟨2, 0⟩)] := by
  have hconfined := Cursor.confined_atRoot sampleBody
  have horder : sampleBody.InOrder := by decide
  obtain ⟨rows, last, hrender, _, hranges, _⟩ := render_in_source_order _ hconfined horder
  exact ⟨hconfined, horder, rows, last, hrender, hranges.trans (by decide)⟩

end TreeListing
