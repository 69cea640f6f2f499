import TreeListing.Listing

/-!
# What a walk is bound to list

At every turn a walk has listed some rows and still has some nodes to arrive at.
`fullListing` puts the two together: the rows listed so far, the pending one included,
and then the lines of everything that lies ahead of the cursor.  A turn moves rows from
the second part to the first and changes nothing else, so a walk ends with the listing
that it was bound to list when it started.

There are four groups.

* The rows.  `listed` reads the rows off a walk, and `Settled` says that no pending row
  is held back.  `listed_openRow` is what opening a row adds.
* The way ahead.  `linesLeft` follows the shape of `turnsLeft`: the subtree at the
  cursor if it is not yet arrived at, then what is to the right of it and of the nodes
  above it.
* The turns.  `arrive_of_leaf`, `arrive_of_firstChild` and `comeBack_eq` say what a turn
  can do, and `run_induction` carries what every turn keeps to the end of a walk.
* The balance.  `fullListing_arrive` and `fullListing_comeBack` are the two kinds of
  turn, `fullListing_turn` is the step and `finish_run` is the whole run.
-/

namespace TreeListing

/-- A line is never empty, so an opened row is always noticed by a flush. -/
theorem Line.isEmpty_text (l : Line) : l.text.isEmpty = false := by
  have hne : l.text ≠ "" := by
    intro h
    have := congrArg String.length h
    simp [Line.text] at this
  cases h : l.text.isEmpty with
  | false => rfl
  | true => exact absurd (String.isEmpty_iff.mp h) hne

namespace Walk

/-! ## The rows -/

/-- The rows that a walk has listed, the pending one included. -/
def listed (w : Walk) : List String :=
  w.rows.toList ++ if w.row.isEmpty then [] else [w.row]

/-- A pending row is complete, so the next flush puts it into the listing. -/
def Settled (w : Walk) : Prop :=
  w.row.isEmpty = false → w.rowComplete = true

theorem settled_start (c : Cursor) : (start c).Settled := by
  simp [Settled, start]

theorem listed_start (c : Cursor) : (start c).listed = [] := by
  simp [listed, start]

/-- A flush loses no row and adds none. -/
theorem rows_flush {w : Walk} (hw : w.Settled) : w.flush.rows.toList = w.listed := by
  unfold flush listed
  cases hrow : w.row.isEmpty with
  | true => simp
  | false => simp [hw hrow]

theorem finish_eq_listed {w : Walk} (hw : w.Settled) : w.finish = w.listed :=
  rows_flush hw

theorem settled_openRow {w : Walk} (hw : w.Settled) : w.openRow.Settled := by
  unfold openRow
  split
  · exact hw
  · intro _
    rfl

/-- Opening a row adds the line of the node at the cursor, if it has one. -/
theorem listed_openRow {w : Walk} (hw : w.Settled) :
    w.openRow.listed =
      w.listed ++ ((w.cursor.node.line? w.level).toList).map Line.text := by
  unfold openRow
  split
  · rename_i h
    simp [h]
  · rename_i line h
    have hrows := rows_flush hw
    simp only [listed] at hrows ⊢
    simp [h, Line.isEmpty_text, hrows]

@[simp] theorem level_flush (w : Walk) : w.flush.level = w.level := by
  unfold flush
  split <;> rfl

@[simp] theorem level_openRow (w : Walk) : w.openRow.level = w.level := by
  unfold openRow
  split <;> simp

/-! ## The way ahead -/

/-- The lines of what comes after a subtree at `level`: the trees to its right, then
those to the right of each node above, one level further out each time. -/
def linesAfter (level : Nat) (siblings : Forest) : List Position → List Line
  | [] => siblings.lines level
  | p :: above => siblings.lines level ++ linesAfter (level - 1) p.siblings above

/-- The lines of all nodes that a walk is still to arrive at. -/
def linesLeft (w : Walk) : List Line :=
  let after := linesAfter w.level w.cursor.here.siblings w.cursor.above
  if w.returning then after else w.cursor.subtree.lines w.level ++ after

theorem linesAfter_nil (level : Nat) (p : Position) (above : List Position) :
    linesAfter level .nil (p :: above) = linesAfter (level - 1) p.siblings above := by
  simp [linesAfter, Forest.lines]

/-- The first tree to the right comes next. -/
theorem linesAfter_cons (level : Nat) (node : Node) (children siblings : Forest)
    (above : List Position) :
    linesAfter level (.cons node children siblings) above =
      Tree.lines level ⟨node, children⟩ ++ linesAfter level siblings above := by
  cases above <;> simp [linesAfter, Forest.lines, Tree.lines]

/-! ## The turns -/

theorem arrive_of_leaf {w : Walk} (h : w.cursor.firstChild? = none) :
    w.arrive = { w.openRow with returning := true } := by
  simp [arrive, h]

theorem arrive_of_firstChild {w : Walk} {below : Cursor}
    (h : w.cursor.firstChild? = some below) :
    w.arrive = { w.openRow with cursor := below, level := w.level + 1 } := by
  simp [arrive, h]

/-- The walk after it has come back to its node, before it moves on. -/
def passed (w : Walk) : Walk :=
  { w with rowComplete := w.rowComplete || w.cursor.node.shown }

theorem comeBack_eq (w : Walk) :
    w.comeBack =
      match w.cursor.nextSibling? with
      | some right => .more { w.passed with cursor := right, returning := false }
      | none =>
          match w.cursor.parent? with
          | some up => .more { w.passed with cursor := up, level := w.level - 1 }
          | none => .done w.passed := by
  have hpassed : (if w.cursor.node.shown then { w with rowComplete := true } else w) =
      w.passed := by
    cases hs : w.cursor.node.shown <;> simp [passed, hs]
  unfold comeBack
  rw [hpassed]
  rfl

theorem run_of_more {w next : Walk} (h : w.turn = .more next) : w.run = next.run := by
  rw [run]
  split
  · rename_i hdone
    simp [hdone] at h
  · rename_i other hmore
    have heq : other = next := Turn.more.inj (hmore.symm.trans h)
    subst heq
    rfl

theorem run_of_done {w last : Walk} (h : w.turn = .done last) : w.run = last := by
  rw [run]
  split
  · rename_i other hdone
    rw [hdone, Turn.done.injEq] at h
    exact h
  · rename_i hmore
    simp [hmore] at h

/-- What every turn keeps holds when the walk ends. -/
theorem run_induction {P Q : Walk → Prop}
    (hturn : ∀ w next, P w → w.turn = .more next → P next)
    (hdone : ∀ w last, P w → w.turn = .done last → Q last) {w : Walk} (hw : P w) :
    Q w.run := by
  induction w using run.induct with
  | case1 w last h =>
      rw [run_of_done h]
      exact hdone w last hw h
  | case2 w next h hless ih =>
      rw [run_of_more h]
      exact ih (hturn w next hw h)

/-! ## The balance -/

/-- The listing that a walk is bound to end with. -/
def fullListing (w : Walk) : List String :=
  w.listed ++ w.linesLeft.map Line.text

/-- Arriving at a node turns its line into a row. -/
theorem fullListing_arrive {w : Walk} (hw : w.Settled) (hr : w.returning = false) :
    w.arrive.Settled ∧ w.arrive.fullListing = w.fullListing := by
  have hsettled := settled_openRow hw
  have hlisted := listed_openRow hw
  obtain ⟨⟨⟨node, children, siblings⟩, above, depth⟩, returning, rows, row, complete, level⟩ := w
  subst hr
  cases children with
  | nil =>
      rw [arrive_of_leaf (by rfl)]
      refine ⟨hsettled, ?_⟩
      simp only [fullListing, linesLeft, cursor_openRow, level_openRow]
      change listed (openRow _) ++ _ = _
      rw [hlisted]
      simp [Cursor.subtree, Tree.lines, Forest.lines, Cursor.node]
  | cons n c s =>
      rw [arrive_of_firstChild (by rfl)]
      refine ⟨hsettled, ?_⟩
      simp only [fullListing, linesLeft, returning_openRow]
      change listed (openRow _) ++ _ = _
      rw [hlisted]
      simp [Cursor.subtree, Tree.lines, Forest.lines, Cursor.node, linesAfter]

/-- Coming back to a node lists nothing: a row that has been opened is complete already,
and where none has been opened there is none to complete. -/
theorem fullListing_passed {w : Walk} (hw : w.Settled) :
    w.passed.Settled ∧ w.passed.fullListing = w.fullListing := by
  refine ⟨?_, rfl⟩
  intro h
  have := hw h
  simp [passed, this]

/-- Moving on from a node that the walk came back to lists nothing. -/
theorem fullListing_comeBack {w next : Walk} (hw : w.Settled) (hr : w.returning = true)
    (h : w.comeBack = .more next) :
    next.Settled ∧ next.fullListing = w.fullListing := by
  obtain ⟨hsettled, hfull⟩ := fullListing_passed hw
  rw [comeBack_eq] at h
  obtain ⟨⟨⟨node, children, siblings⟩, above, depth⟩, returning, rows, row, complete, level⟩ := w
  subst hr
  rw [← hfull]
  cases siblings with
  | cons n c s =>
      simp only [Cursor.nextSibling?, Turn.more.injEq] at h
      subst h
      refine ⟨hsettled, ?_⟩
      simp [fullListing, linesLeft, passed, listed, linesAfter_cons, Cursor.subtree]
  | nil =>
      cases above with
      | nil => simp [Cursor.nextSibling?, Cursor.parent?] at h
      | cons p above =>
          simp only [Cursor.nextSibling?, Cursor.parent?, Turn.more.injEq] at h
          subst h
          refine ⟨hsettled, ?_⟩
          simp [fullListing, linesLeft, passed, listed, linesAfter_nil]

/-- A turn leaves the listing that a walk is bound to end with as it is. -/
theorem fullListing_turn {w next : Walk} (hw : w.Settled) (h : w.turn = .more next) :
    next.Settled ∧ next.fullListing = w.fullListing := by
  unfold turn at h
  cases hr : w.returning with
  | false =>
      simp only [hr, Bool.false_eq_true, if_false, Turn.more.injEq] at h
      subst h
      exact fullListing_arrive hw hr
  | true =>
      simp only [hr, if_true] at h
      exact fullListing_comeBack hw hr h

/-- A walk ends with nothing left to arrive at. -/
theorem fullListing_done {w last : Walk} (hw : w.Settled) (h : w.turn = .done last) :
    last.finish = w.fullListing := by
  unfold turn at h
  cases hr : w.returning with
  | false => simp [hr] at h
  | true =>
      simp only [hr, if_true] at h
      obtain ⟨hsettled, hfull⟩ := fullListing_passed hw
      rw [comeBack_eq] at h
      obtain ⟨⟨⟨node, children, siblings⟩, above, depth⟩,
        returning, rows, row, complete, level⟩ := w
      subst hr
      cases siblings with
      | cons n c s => simp [Cursor.nextSibling?] at h
      | nil =>
          cases above with
          | cons p above => simp [Cursor.nextSibling?, Cursor.parent?] at h
          | nil =>
              simp only [Cursor.nextSibling?, Cursor.parent?, Turn.done.injEq] at h
              subst h
              rw [finish_eq_listed hsettled, ← hfull]
              simp [fullListing, linesLeft, passed, linesAfter, Forest.lines]

/-- A whole walk lists what it was bound to list when it started. -/
theorem finish_run {w : Walk} (hw : w.Settled) : w.run.finish = w.fullListing := by
  refine run_induction (P := fun v => v.Settled ∧ v.fullListing = w.fullListing)
    (Q := fun last => last.finish = w.fullListing) ?_ ?_ ⟨hw, rfl⟩
  · intro v next hv h
    obtain ⟨hsettled, hfull⟩ := fullListing_turn hv.1 h
    exact ⟨hsettled, hfull.trans hv.2⟩
  · intro v last hv h
    exact (fullListing_done hv.1 h).trans hv.2

end Walk

end TreeListing
