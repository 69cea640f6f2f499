import TreeListing.Proofs.Line.Indentation

/-!
# Positions on a line

The text in front of a range may hold anything: brackets, dashes, line breaks, or a whole range.
The positions of a line are found all the same, because both cuts are made at the *last*
separator.  `LastCut` says what that is without an algorithm, and `splitLast?_eq_some_iff` says
that `splitLast?` finds such a cut whenever there is one.

`readRange?_text` is the result.  Its second half is that of an injection: equal lines have equal
positions and equal texts in front of them.
-/

namespace TreeListing

/-- A text cut around the last place where a separator stands. -/
structure LastCut (sep text before after : List Char) : Prop where
  eq : text = before ++ (sep ++ after)
  last : ∀ earlier later, text = earlier ++ (sep ++ later) → earlier.length ≤ before.length

/-- There is one last cut at most. -/
theorem LastCut.unique {sep text before after before' after' : List Char}
    (h : LastCut sep text before after) (h' : LastCut sep text before' after') :
    before = before' ∧ after = after' := by
  have hlength : before.length = before'.length :=
    Nat.le_antisymm (h'.last before after h.eq) (h.last before' after' h'.eq)
  have heq : before ++ (sep ++ after) = before' ++ (sep ++ after') := h.eq.symm.trans h'.eq
  obtain ⟨hbefore, hrest⟩ := List.append_inj heq hlength
  exact ⟨hbefore, List.append_cancel_left hrest⟩

namespace Line

/-! ## The last cut -/

/-- A text that is not cut does not hold the separator. -/
theorem ne_append_of_splitLast?_eq_none {sep text : List Char} (hsep : sep ≠ [])
    (h : splitLast? sep text = none) (before after : List Char) :
    text ≠ before ++ (sep ++ after) := by
  induction text generalizing before with
  | nil => simp [hsep]
  | cons c cs ih =>
      rw [splitLast?] at h
      split at h
      · simp at h
      · rename_i hrest
        split at h
        · simp at h
        · rename_i hfront
          cases before with
          | nil =>
              intro heq
              exact hfront (List.isPrefixOf_iff_prefix.mpr ⟨after, heq.symm⟩)
          | cons d before =>
              intro heq
              exact ih hrest before (List.cons.inj heq).2

theorem lastCut_of_splitLast? {sep text before after : List Char} (hsep : sep ≠ [])
    (h : splitLast? sep text = some (before, after)) : LastCut sep text before after := by
  induction text generalizing before with
  | nil => simp [splitLast?] at h
  | cons c cs ih =>
      rw [splitLast?] at h
      split at h
      · rename_i front back hrest
        obtain ⟨rfl, rfl⟩ := Prod.mk.inj (Option.some.inj h)
        have hcut := ih hrest
        refine ⟨by rw [hcut.eq, List.cons_append], ?_⟩
        intro earlier later heq
        cases earlier with
        | nil => exact Nat.zero_le _
        | cons d earlier =>
            exact Nat.succ_le_succ (hcut.last earlier later (List.cons.inj heq).2)
      · rename_i hrest
        split at h
        · rename_i hfront
          obtain ⟨rfl, rfl⟩ := Prod.mk.inj (Option.some.inj h)
          refine ⟨(List.prefix_iff_eq_append.mp (List.isPrefixOf_iff_prefix.mp hfront)).symm, ?_⟩
          intro earlier later heq
          cases earlier with
          | nil => exact Nat.le_refl _
          | cons d earlier =>
              -- the separator would stand in the rest, which is not cut
              exact absurd (List.cons.inj heq).2
                (ne_append_of_splitLast?_eq_none hsep hrest earlier later)
        · simp at h

/-- Cutting finds the last place where the separator stands. -/
theorem splitLast?_eq_some_iff {sep text before after : List Char} (hsep : sep ≠ []) :
    splitLast? sep text = some (before, after) ↔ LastCut sep text before after := by
  constructor
  · exact lastCut_of_splitLast? hsep
  · intro hcut
    cases h : splitLast? sep text with
    | none => exact absurd hcut.eq (ne_append_of_splitLast?_eq_none hsep h before after)
    | some found =>
        obtain ⟨hbefore, hafter⟩ := hcut.unique (lastCut_of_splitLast? hsep h)
        rw [hbefore, hafter]

/-! ## Positions -/

/-- What stands in front of the range: the indentation, the field and the label. -/
def head (l : Line) : String :=
  indentation l.level ++ fieldText l.field ++ l.label.text

theorem toList_text_eq_head (l : Line) :
    l.text.toList = l.head.toList ++ rangeText l.start l.stop := by
  rw [toList_text]
  simp [head, body, indentation]

/-- The last ` - ` of a line stands between its two positions. -/
theorem lastCut_text (l : Line) :
    LastCut " - ".toList l.text.toList (l.head.toList ++ ' ' :: '[' :: l.start.tail)
      l.stop.text.toList := by
  rw [← splitLast?_eq_some_iff (by decide), toList_text_eq_head, Point.toList_text]
  exact splitLast?_rangeText l.head.toList l.start l.stop

/-- In front of that, the last ` [` opens the first position. -/
theorem lastCut_start (l : Line) :
    LastCut " [".toList (l.head.toList ++ ' ' :: '[' :: l.start.tail) l.head.toList
      l.start.tail := by
  rw [← splitLast?_eq_some_iff (by decide)]
  exact splitLast?_start l.head.toList l.start

/-- Cut at its last ` - ` and in front of that at the last ` [`, a line gives its two positions
and the text in front of them, whatever its field and its kind are.  So two equal lines have the
same positions and the same text in front of them. -/
theorem readRange?_text (l : Line) (hlevel : l.level < levelLimit) :
    ∃ row left, l.text? = some row ∧
      LastCut " - ".toList row.toList left l.stop.text.toList ∧
      LastCut " [".toList left l.head.toList l.start.tail ∧
      readRange? row.toList = some (l.head.toList, l.start, l.stop) ∧
      ∀ other : Line, other.text? = some row →
        other.start = l.start ∧ other.stop = l.stop ∧ other.head = l.head := by
  have hread : ∀ m : Line, readRange? m.text.toList = some (m.head.toList, m.start, m.stop) := by
    intro m
    rw [toList_text_eq_head, readRange?_append_rangeText]
  refine ⟨l.text, _, by rw [text?, if_pos hlevel], l.lastCut_text, l.lastCut_start, hread l, ?_⟩
  intro other hother
  have hsame : other.text = l.text := by
    rw [text?] at hother
    split at hother
    · exact Option.some.inj hother
    · simp at hother
  have hparts := hread other
  rw [hsame, hread l] at hparts
  simp only [Option.some.injEq, Prod.mk.injEq, String.toList_inj] at hparts
  obtain ⟨hhead, hstart, hstop⟩ := hparts
  exact ⟨hstart.symm, hstop.symm, hhead.symm⟩

/-- A missing token that looks like the end of a line of its own. -/
def sampleLine : Line :=
  ⟨1, some "a - b", .missing "x [9, 9] - [1, 2]\n" false, ⟨3, 14⟩, ⟨3, 14⟩⟩

/-- The range in the token is not taken for the range of the line. -/
theorem readRange?_text_sampleLine :
    sampleLine.level < levelLimit ∧
      ∃ row, sampleLine.text? = some row ∧
        row = "  a - b: MISSING \"x [9, 9] - [1, 2]\n\" [3, 14] - [3, 14]" ∧
        readRange? row.toList =
          some ("  a - b: MISSING \"x [9, 9] - [1, 2]\n\"".toList, ⟨3, 14⟩, ⟨3, 14⟩) := by
  have hlevel : sampleLine.level < levelLimit := by decide
  have hrow : sampleLine.text? =
      some "  a - b: MISSING \"x [9, 9] - [1, 2]\n\" [3, 14] - [3, 14]" := by decide
  have hhead : sampleLine.head = "  a - b: MISSING \"x [9, 9] - [1, 2]\n\"" := by decide
  obtain ⟨row, _, htext, _, _, hread, _⟩ := readRange?_text sampleLine hlevel
  refine ⟨hlevel, row, htext, Option.some.inj (htext.symm.trans hrow), ?_⟩
  rw [hread, hhead]
  rfl

end Line

end TreeListing
