import TreeListing.Proofs.Listing.Subtree
import TreeListing.Proofs.Walk.Tour

/-!
# What a walk keeps track of

A walk has no record of the way down.  It has the rows listed so far, a pending row, a mark that
the row is complete, and a level.  From a start that the cursor cannot leave, these agree with the
nodes visited so far at the head of every turn.

There are four groups.

* `Tidy` is what a walk can say about itself.  Its last field carries the proof: while no row has
  been opened, no node above the cursor is shown, so coming back to one completes nothing.
* `Tidy.turn` says that a turn keeps a walk tidy, and `Turns.tidy` that a run does.
* A tidy walk needs no precautions.  `bareTurn` is a turn that completes no row on the way back and
  lowers the level without a floor, and a tidy walk takes the same turn (`Tidy.bareTurn_eq`).
* The rows are counted against the arrivals.  `Turns.listed_eq` is the account along a run, and
  `Cursor.Confined.arrivals_eq` says that a run arrives at the places of the tree in pre-order.

`walk_bookkeeping` is the result.
-/

namespace TreeListing

namespace Walk

/-! ## Tidy walks -/

/-- What a walk keeps track of agrees with where its cursor is. -/
structure Tidy (w : Walk) : Prop where
  depth : w.cursor.depth = w.cursor.above.length
  level : w.level = w.cursor.depth
  complete : w.rowComplete = true ↔ w.row ≠ ""
  /-- While no row is pending, none has been listed and no shown node has been passed. -/
  fresh : w.row = "" → w.rows = #[] ∧ (∀ p ∈ w.cursor.above, p.node.shown = false) ∧
    (w.returning = true → w.cursor.node.shown = false)

theorem tidy_start {c : Cursor} (hc : c.Confined) : (start c).Tidy := by
  refine ⟨?_, ?_, ?_, ?_⟩
  · simp [start, hc.depth, hc.above]
  · simp [start, hc.depth]
  · simp [start]
  · simp [start, hc.above]

theorem Tidy.settled {w : Walk} (hw : w.Tidy) : w.Settled := by
  intro h
  rw [hw.complete]
  intro hrow
  simp [hrow] at h

/-- A flush empties the pending row. -/
theorem Tidy.row_flush {w : Walk} (hw : w.Tidy) : w.flush.row = "" := by
  unfold flush
  split
  · rfl
  · rename_i h
    by_contra hrow
    have hcomplete := hw.complete.mpr hrow
    simp_all

/-- Coming back to a shown node, a walk has a complete row already. -/
theorem Tidy.complete_of_returning {w : Walk} (hw : w.Tidy) (hr : w.returning = true)
    (hshown : w.cursor.node.shown = true) : w.rowComplete = true := by
  rw [hw.complete]
  intro hrow
  have := (hw.fresh hrow).2.2 hr
  simp [this] at hshown

theorem Tidy.passed_eq {w : Walk} (hw : w.Tidy) (hr : w.returning = true) : w.passed = w := by
  have hsame : (w.rowComplete || w.cursor.node.shown) = w.rowComplete := by
    cases hshown : w.cursor.node.shown with
    | false => simp
    | true => simp [hw.complete_of_returning hr hshown]
  rw [passed, hsame]

/-! ## Turns of a tidy walk -/

/-- An opened row is complete; where none is opened, the node at the cursor is hidden. -/
theorem Tidy.openRow {w : Walk} (hw : w.Tidy) :
    (w.openRow.rowComplete = true ↔ w.openRow.row ≠ "") ∧
      (w.openRow.row = "" → w.openRow.rows = #[] ∧
        ∀ p ∈ w.cursor.here :: w.cursor.above, p.node.shown = false) := by
  have hshown := w.cursor.node.isSome_line? w.level
  unfold Walk.openRow
  split
  · rename_i hline
    rw [hline, Option.isSome_none] at hshown
    refine ⟨hw.complete, fun hrow => ⟨(hw.fresh hrow).1, ?_⟩⟩
    exact List.forall_mem_cons.mpr ⟨hshown.symm, (hw.fresh hrow).2.1⟩
  · rename_i line hline
    have hrow : line.text ≠ "" := fun h => by
      have := line.isEmpty_text
      simp [h] at this
    exact ⟨by simp [hrow], fun h => absurd h hrow⟩

/-- Arriving at a node keeps a walk tidy. -/
theorem Tidy.arrive {w : Walk} (hw : w.Tidy) (hr : w.returning = false) : w.arrive.Tidy := by
  obtain ⟨hcomplete, hfresh⟩ := hw.openRow
  cases hchild : w.cursor.firstChild? with
  | none =>
      rw [arrive_of_leaf hchild]
      refine ⟨by simp [hw.depth], by simp [hw.level], hcomplete, fun hrow => ?_⟩
      obtain ⟨hrows, hpassed⟩ := hfresh hrow
      obtain ⟨hhere, habove⟩ := List.forall_mem_cons.mp hpassed
      exact ⟨hrows, by simpa using habove, fun _ => by simpa [Cursor.node] using hhere⟩
  | some below =>
      rw [arrive_of_firstChild hchild]
      have hbelow : below.above = w.cursor.here :: w.cursor.above ∧
          below.depth = w.cursor.depth + 1 := by
        unfold Cursor.firstChild? at hchild
        split at hchild
        · simp at hchild
        · obtain rfl := Option.some.inj hchild
          exact ⟨rfl, rfl⟩
      refine ⟨by simp [hbelow, hw.depth], by simp [hbelow, hw.level], hcomplete, fun hrow => ?_⟩
      obtain ⟨hrows, hpassed⟩ := hfresh hrow
      exact ⟨hrows, by rwa [hbelow.1], by simp [hr]⟩

/-- Moving on from a node that it came back to keeps a walk tidy. -/
theorem Tidy.comeBack {w next : Walk} (hw : w.Tidy) (hr : w.returning = true)
    (h : w.comeBack = .more next) : next.Tidy := by
  rw [comeBack_eq, hw.passed_eq hr] at h
  obtain ⟨⟨⟨node, children, siblings⟩, above, depth⟩, returning, rows, row, complete, level⟩ := w
  obtain ⟨hdepth, hlevel, hcomplete, hfresh⟩ := hw
  simp only at hdepth hlevel hcomplete hfresh
  cases siblings with
  | cons n c s =>
      simp only [Cursor.nextSibling?, Turn.more.injEq] at h
      subst h
      exact ⟨hdepth, hlevel, hcomplete, fun hrow => ⟨(hfresh hrow).1, (hfresh hrow).2.1, by simp⟩⟩
  | nil =>
      cases above with
      | nil => simp [Cursor.nextSibling?, Cursor.parent?] at h
      | cons p above =>
          simp only [Cursor.nextSibling?, Cursor.parent?, Turn.more.injEq] at h
          subst h
          refine ⟨by simp [hdepth], by simp [hlevel], hcomplete, fun hrow => ?_⟩
          -- the parent is one of the nodes above, and so are those above the parent
          obtain ⟨hparent, habove⟩ := List.forall_mem_cons.mp (hfresh hrow).2.1
          exact ⟨(hfresh hrow).1, habove, fun _ => hparent⟩

/-- A turn keeps a walk tidy. -/
theorem Tidy.turn {w next : Walk} (hw : w.Tidy) (h : w.turn = .more next) : next.Tidy := by
  unfold Walk.turn at h
  cases hr : w.returning with
  | false =>
      simp only [hr, Bool.false_eq_true, if_false, Turn.more.injEq] at h
      subst h
      exact hw.arrive hr
  | true =>
      simp only [hr, if_true] at h
      exact hw.comeBack hr h

/-- A tidy walk ends as it is at the head of its last turn. -/
theorem Tidy.eq_of_done {w last : Walk} (hw : w.Tidy) (h : w.turn = .done last) : last = w := by
  have hr := (eq_nil_of_turn_done h).1
  unfold Walk.turn at h
  simp only [hr, if_true, comeBack_eq, hw.passed_eq hr] at h
  split at h
  · simp at h
  · split at h
    · simp at h
    · exact (Turn.done.inj h).symm

/-- A run keeps a walk tidy, at the head of each turn and at the end. -/
theorem Turns.tidy {w last : Walk} {heads : List Walk} (h : w.Turns heads last) (hw : w.Tidy) :
    (∀ v ∈ heads, v.Tidy) ∧ last.Tidy := by
  induction h with
  | last h =>
      obtain rfl := hw.eq_of_done h
      exact ⟨by simpa using hw, hw⟩
  | more h _ ih =>
      obtain ⟨hheads, hlast⟩ := ih (hw.turn h)
      exact ⟨List.forall_mem_cons.mpr ⟨hw, hheads⟩, hlast⟩

/-! ## Turns without precautions -/

/-- A turn that takes no precautions: coming back it completes no row, and going up it lowers the
level by one, which must not be zero. -/
def bareTurn (w : Walk) : Option Turn :=
  if w.returning then
    match w.cursor.nextSibling?, w.cursor.parent?, w.level with
    | some right, _, _ => some (.more { w with cursor := right, returning := false })
    | none, none, _ => some (.done w)
    | none, some _, 0 => none
    | none, some up, level + 1 => some (.more { w with cursor := up, level })
  else some (.more w.arrive)

/-- A run of at most `n` turns without precautions. -/
def bareRun : Nat → Walk → Option Walk
  | 0, _ => none
  | n + 1, w =>
      match w.bareTurn with
      | some (.more next) => bareRun n next
      | some (.done last) => some last
      | none => none

/-- A tidy walk needs no precautions. -/
theorem Tidy.bareTurn_eq {w : Walk} (hw : w.Tidy) : w.bareTurn = some w.turn := by
  unfold bareTurn Walk.turn
  cases hr : w.returning with
  | false => simp
  | true =>
      simp only [if_true, comeBack_eq, hw.passed_eq hr]
      cases hright : w.cursor.nextSibling? with
      | some right => simp
      | none =>
          cases hup : w.cursor.parent? with
          | none => simp
          | some up =>
              -- there is a node above, so the level is not zero
              have habove : w.cursor.above ≠ [] := by
                intro h
                simp [Cursor.parent?, h] at hup
              have hlength := List.length_pos_iff.mpr habove
              cases hlevel : w.level with
              | zero =>
                  have := hw.level
                  have := hw.depth
                  omega
              | succ level => simp [hr]

/-- A run in which no turn needs precautions ends the same without them. -/
theorem Turns.bareRun_eq {w last : Walk} {heads : List Walk} (h : w.Turns heads last)
    (hbare : ∀ v ∈ heads, v.bareTurn = some v.turn) :
    bareRun heads.length w = some last := by
  induction h with
  | last h => simp [bareRun, hbare _ List.mem_cons_self, h]
  | more h _ ih =>
      rw [List.length_cons, bareRun, hbare _ List.mem_cons_self, h]
      exact ih fun v hv => hbare v (List.mem_cons_of_mem _ hv)

/-! ## Rows and arrivals -/

/-- The row that a turn opens. -/
def opened? (w : Walk) : Option String :=
  if w.returning then none else (w.cursor.node.line? w.level).map Line.text

/-- A turn adds the row that it opens to those listed. -/
theorem listed_turn {w next : Walk} (hw : w.Settled) (h : w.turn = .more next) :
    next.listed = w.listed ++ w.opened?.toList := by
  unfold turn at h
  cases hr : w.returning with
  | false =>
      simp only [hr, Bool.false_eq_true, if_false, Turn.more.injEq] at h
      have harrive : w.arrive.listed = w.openRow.listed := by
        cases hchild : w.cursor.firstChild? with
        | none => rw [arrive_of_leaf hchild]; rfl
        | some below => rw [arrive_of_firstChild hchild]; rfl
      rw [← h, harrive, listed_openRow hw, opened?, hr, if_neg Bool.false_ne_true,
        Option.toList_map]
  | true =>
      simp only [hr, if_true, comeBack_eq] at h
      have hlisted : next.listed = w.listed := by
        split at h
        · obtain rfl := Turn.more.inj h
          rfl
        · split at h
          · obtain rfl := Turn.more.inj h
            rfl
          · simp at h
      simp [hlisted, opened?, hr]

/-- At the head of a turn the rows listed are those that the turns before have opened. -/
theorem Turns.listed_eq {w last : Walk} {heads : List Walk} (h : w.Turns heads last)
    (hw : w.Tidy) {k : Nat} {v : Walk} (hv : heads[k]? = some v) :
    v.listed = w.listed ++ (heads.take k).filterMap opened? := by
  induction h generalizing k with
  | last h =>
      obtain rfl : k = 0 := by
        have := (List.getElem?_eq_some_iff.mp hv).1
        simpa using this
      simp_all
  | @more w next last heads h _ ih =>
      cases k with
      | zero => simp_all
      | succ k =>
          rw [ih (hw.turn h) hv, listed_turn hw.settled h, List.take_succ_cons,
            List.filterMap_cons, List.append_assoc]
          cases w.opened? <;> rfl

end Walk

namespace Cursor

/-- Below a node the arrivals are at the places below it, in pre-order. -/
theorem arrivals_visits {c : Cursor} {f : Forest} {i : Nat}
    (h : c.subtree.children.trees.drop i = f.trees) :
    (((f.visits (c.here :: c.above) (c.depth + 1)).filter fun v => !v.2).map fun v => some v.1) =
      (f.places i).map c.descend? := by
  induction f generalizing c i with
  | nil => rfl
  | cons node children siblings ihChildren ihSiblings =>
      obtain ⟨first, hdescend, hchildren, hsiblings, hvisits⟩ := visits_cons h
      rw [hvisits]
      simp [Forest.places, Function.comp_def, hdescend, ihChildren hchildren, ihSiblings hsiblings]

/-- From a start that the cursor cannot leave, a walk arrives at the places in pre-order. -/
theorem Confined.arrivals_eq {c : Cursor} (hc : c.Confined) :
    (((Walk.start c).visitsLeft.filter fun v => !v.2).map fun v => some v.1) =
      c.subtree.places.map c.descend? := by
  have hbelow := arrivals_visits (c := c) (f := c.here.children) (i := 0) rfl
  rw [hc.visitsLeft_start, Tree.places]
  simp [hbelow, subtree]

/-- The row that an arrival at a place opens is the row of the place. -/
theorem rowAt?_eq {c : Cursor} (hc : c.depth = 0) {place : List Nat}
    (h : place ∈ c.subtree.places) :
    c.subtree.rowAt? 0 place =
      (c.descend? place).bind fun there => (there.node.line? there.depth).map Line.text := by
  obtain ⟨sub, hsub⟩ := Option.isSome_iff_exists.mp (Tree.mem_places_iff.mp h)
  obtain ⟨there, hthere, rfl, _⟩ := exists_foldlM_child? hsub
  have hdescend : c.descend? place = some there := hthere
  rw [Tree.rowAt?, hsub, hdescend, Option.bind_some, Option.bind_some,
    (subtree_of_descend? hdescend).2, hc]
  rfl

/-- A walk from a start that the cursor cannot leave visits places below the start only. -/
theorem Confined.exists_descend?_of_mem {c : Cursor} (hc : c.Confined) {v : Cursor × Bool}
    (h : v ∈ (Walk.start c).visitsLeft) : ∃ place, c.descend? place = some v.1 := by
  have hmem := hc.perm_visitsLeft.mem_iff.mp (List.mem_map_of_mem h)
  obtain ⟨place, _, hplace⟩ := List.mem_flatMap.mp hmem
  simp only [List.mem_cons, List.not_mem_nil, Prod.mk.injEq, or_false] at hplace
  rcases hplace with ⟨hthere, _⟩ | ⟨hthere, _⟩ <;> exact ⟨place, hthere.symm⟩

end Cursor

theorem Tree.isSome_rowAt? {t : Tree} (level : Nat) {place : List Nat} :
    (t.rowAt? level place).isSome = true ↔
      ∃ sub, t.subtree? place = some sub ∧ sub.node.shown = true := by
  rw [rowAt?]
  cases t.subtree? place with
  | none => simp
  | some sub => simp [Node.isSome_line?]

namespace Walk

/-- Nothing is listed exactly while no row is pending. -/
theorem Tidy.listed_eq_nil_iff {w : Walk} (hw : w.Tidy) : w.listed = [] ↔ w.row = "" := by
  constructor
  · intro h
    by_contra hrow
    simp [listed, hrow] at h
  · intro h
    simp [listed, h, (hw.fresh h).1]

/-- The number of nodes that a walk has arrived at in these turns. -/
def arrivals (heads : List Walk) : Nat :=
  heads.countP fun w => !w.returning

/-- The rows opened in the first turns of a walk are those of the first places. -/
theorem Turns.filterMap_opened? {c : Cursor} (hc : c.Confined) {last : Walk} {heads : List Walk}
    (h : (start c).Turns heads last) (k : Nat) :
    (heads.take k).filterMap opened? =
      (c.subtree.places.take (arrivals (heads.take k))).filterMap (c.subtree.rowAt? 0) := by
  have htidy := (h.tidy (tidy_start hc)).1
  -- the arrivals of the first turns are the first arrivals
  have hfirst : (heads.take k).filter (fun w => !w.returning) =
      (heads.filter fun w => !w.returning).take (arrivals (heads.take k)) := by
    conv => rhs; rw [← List.take_append_drop k heads]
    rw [List.filter_append, List.take_append_drop, arrivals, List.countP_eq_length_filter,
      List.take_left]
  have hplaces : ((heads.take k).filter fun w => !w.returning).map (fun w => some w.cursor) =
      (c.subtree.places.take (arrivals (heads.take k))).map c.descend? := by
    have harrivals := hc.arrivals_eq
    rw [← h.map_visit_eq, List.filter_map, List.map_map] at harrivals
    rw [hfirst, List.map_take, List.map_take]
    exact congrArg (List.take _) harrivals
  calc (heads.take k).filterMap opened?
    _ = ((heads.take k).filter fun w => !w.returning).filterMap fun w =>
          (w.cursor.node.line? w.cursor.depth).map Line.text := by
        rw [List.filterMap_filter]
        refine List.filterMap_congr fun w hw => ?_
        rw [opened?, (htidy w (List.mem_of_mem_take hw)).level]
        cases w.returning <;> rfl
    _ = (((heads.take k).filter fun w => !w.returning).map fun w => some w.cursor).filterMap
          fun there => there.bind fun there => (there.node.line? there.depth).map Line.text := by
        rw [List.filterMap_map]
        rfl
    _ = _ := by
        rw [hplaces, List.filterMap_map]
        refine List.filterMap_congr fun place hplace => ?_
        exact (Cursor.rowAt?_eq hc.depth (List.mem_of_mem_take hplace)).symm

/-- What holds at the head of a turn of a walk over a tree when the walk has arrived at these
places. -/
structure OnTrack (t : Tree) (opened : List (List Nat)) (w : Walk) : Prop where
  level : w.level = w.cursor.depth
  depth_le : w.cursor.depth ≤ t.height
  complete : w.rowComplete = true ↔ w.row ≠ ""
  /-- A row is pending as soon as a shown node has been opened. -/
  pending : w.row ≠ "" ↔
    ∃ place ∈ opened, ∃ sub, t.subtree? place = some sub ∧ sub.node.shown = true
  /-- The rows, the pending one included, are those of the opened nodes in pre-order. -/
  listed : w.listed = opened.filterMap (t.rowAt? 0)
  /-- A flush loses no row, adds none twice and leaves none pending. -/
  rows_flush : w.flush.rows.toList = w.listed
  row_flush : w.flush.row = ""
  not_mem : "" ∉ w.listed
  /-- There is nothing to complete on the way back. -/
  passed : w.returning = true → w.cursor.node.shown = true → w.rowComplete = true
  /-- The turn needs no precautions. -/
  bare : w.bareTurn = some w.turn

/-- At the head of every turn a walk is on track. -/
theorem Turns.onTrack {c : Cursor} (hc : c.Confined) {last : Walk} {heads : List Walk}
    (h : (start c).Turns heads last) {k : Nat} {w : Walk} (hw : heads[k]? = some w) :
    w.OnTrack c.subtree (c.subtree.places.take (arrivals (heads.take k))) := by
  have hmem := List.mem_of_getElem? hw
  have htidy := (h.tidy (tidy_start hc)).1 w hmem
  have hlisted : w.listed =
      (c.subtree.places.take (arrivals (heads.take k))).filterMap (c.subtree.rowAt? 0) := by
    rw [h.listed_eq (tidy_start hc) hw, listed_start, List.nil_append, h.filterMap_opened? hc]
  have hdepth : w.cursor.depth ≤ c.subtree.height := by
    have hvisit : w.visit ∈ (start c).visitsLeft := h.map_visit_eq ▸ List.mem_map_of_mem hmem
    obtain ⟨place, hplace⟩ := hc.exists_descend?_of_mem hvisit
    obtain ⟨hsub, hlevel⟩ := Cursor.subtree_of_descend? hplace
    have hle := Tree.length_add_height_le hsub
    have hzero := hc.depth
    simp only [visit] at hlevel
    omega
  refine
    { level := htidy.level
      depth_le := hdepth
      complete := htidy.complete
      pending := ?_
      listed := hlisted
      rows_flush := Walk.rows_flush htidy.settled
      row_flush := htidy.row_flush
      not_mem := ?_
      passed := htidy.complete_of_returning
      bare := htidy.bareTurn_eq }
  · rw [Ne, ← htidy.listed_eq_nil_iff, hlisted, List.filterMap_eq_nil_iff]
    simp only [← Tree.isSome_rowAt? 0, Option.isSome_iff_ne_none, not_forall, exists_prop, Ne]
  · rw [hlisted]
    intro hempty
    obtain ⟨place, _, hrow⟩ := List.mem_filterMap.mp hempty
    obtain ⟨sub, _, hline⟩ := Option.bind_eq_some_iff.mp hrow
    obtain ⟨line, _, htext⟩ := Option.map_eq_some_iff.mp hline
    have := line.isEmpty_text
    simp [htext] at this

end Walk

/-- From a start that the cursor cannot leave, what a walk keeps track of is right at the head of
every turn: the level is the depth of the cursor, a complete row is pending exactly if a shown
node has been opened, and the rows, with the pending one, are those of the nodes opened so far,
which are the first of the tree in pre-order.  So no turn needs the floor under the level or the
completion of a row on the way back, and the run is the same without them. -/
theorem walk_bookkeeping (c : Cursor) (hc : c.Confined) :
    ∃ heads, (Walk.start c).Turns heads (Walk.start c).run ∧
      ((heads.filter fun w => !w.returning).map fun w => some w.cursor) =
        c.subtree.places.map c.descend? ∧
      (∀ (k : Nat) (w : Walk), heads[k]? = some w →
        w.OnTrack c.subtree (c.subtree.places.take (Walk.arrivals (heads.take k)))) ∧
      Walk.bareRun heads.length (Walk.start c) = some (Walk.start c).run ∧
      (Walk.start c).run.finish = c.subtree.places.filterMap (c.subtree.rowAt? 0) ∧
      (Walk.start c).run.flush.row = "" := by
  obtain ⟨heads, hturns⟩ := (Walk.start c).exists_turns
  obtain ⟨hheads, hlast⟩ := hturns.tidy (Walk.tidy_start hc)
  have harrivals := hc.arrivals_eq
  rw [← hturns.map_visit_eq, List.filter_map, List.map_map] at harrivals
  refine ⟨heads, hturns, harrivals, fun k w => hturns.onTrack hc, ?_, ?_, hlast.row_flush⟩
  · exact hturns.bareRun_eq fun v hv => (hheads v hv).bareTurn_eq
  · have hrows := Cursor.rows_walk_of_confined hc
    rwa [Tree.listing_eq_filterMap] at hrows

/-- After four turns over the call the walk comes back to the parenthesis, which is hidden.  The
row of the call is listed, and that of the argument below the parenthesis is pending. -/
theorem walk_bookkeeping_sampleCall :
    (Cursor.atRoot sampleCall).Confined ∧
      ∃ heads w, (Walk.start (Cursor.atRoot sampleCall)).Turns heads
          (Walk.start (Cursor.atRoot sampleCall)).run ∧
        heads[4]? = some w ∧ w.returning = true ∧ w.cursor.node.kind = "(" ∧ w.level = 1 ∧
        w.listed = ["body: call [0, 0] - [0, 12]", "    argument: name [0, 5] - [0, 9]"] ∧
        w.flush.rows.toList = w.listed := by
  have hconfined := Cursor.confined_atRoot sampleCall
  obtain ⟨heads, hturns, _, htrack, _⟩ := walk_bookkeeping _ hconfined
  have hvisits := hturns.map_visit_eq
  have hlength : heads.length = 8 := hturns.length_eq.trans (by decide)
  have hhead : heads[4]? = some heads[4] := List.getElem?_eq_getElem (by omega)
  have hvisit : (heads[4].returning, heads[4].cursor.node.kind, heads[4].cursor.depth) =
      (true, "(", 1) := by
    have hfifth : ((Walk.start (Cursor.atRoot sampleCall)).visitsLeft[4]?).map
        (fun v => (v.2, v.1.node.kind, v.1.depth)) = some (true, "(", 1) := by decide
    rw [← hvisits, List.getElem?_map, hhead] at hfifth
    exact Option.some.inj hfifth
  have harrivals : Walk.arrivals (heads.take 4) = 3 := by
    have hcount : (((Walk.start (Cursor.atRoot sampleCall)).visitsLeft).take 4).countP
        (fun v => !v.2) = 3 := by decide
    rw [← hvisits, ← List.map_take, List.countP_map] at hcount
    exact hcount
  obtain ⟨hreturning, hkind, hdepth⟩ : _ ∧ _ ∧ _ := by simpa using hvisit
  have hon := htrack 4 _ hhead
  rw [harrivals] at hon
  exact ⟨hconfined, heads, heads[4], hturns, hhead, hreturning, hkind, hon.level.trans hdepth,
    hon.listed.trans (by decide), hon.rows_flush⟩

end TreeListing
