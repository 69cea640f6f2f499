import TreeListing.Proofs.Line.Reader
import TreeListing.Proofs.Walk.Reference

/-!
# A kept listing can be read back

The text that a listing is kept as determines the shown nodes of the tree.  The text is
cut into its lines at the line feeds (`splitLines_joinLines`), each line is read back
(`Line.read?_text`), and a line determines its node and the depth of the node.

`shownOutline` is what can be read back: the shown nodes in pre-order with their depths.
`map_entry_lines` says that the lines carry exactly that, and
`joinLines_eq_iff_shownOutline_eq` is the result.
-/

namespace TreeListing

/-! ## Lines of a text -/

/-- The lines of a text that are separated by line feeds; the empty text has none. -/
def splitLines (text : String) : List String :=
  if text.isEmpty then [] else (text.toList.splitOn '\n').map String.ofList

theorem joinLines_ne_empty {rows : List String} (hrows : rows ≠ []) (hempty : "" ∉ rows) :
    joinLines rows ≠ "" := by
  intro h
  cases rows with
  | nil => exact hrows rfl
  | cons row rest =>
      have hrow : row = "" := by
        cases rest with
        | nil => simpa [joinLines] using h
        | cons next rest => simp [joinLines, String.intercalate_cons_cons] at h
      exact hempty (hrow ▸ List.mem_cons_self)

/-- Joined lines are found again if none is empty and none holds a line feed. -/
theorem splitLines_joinLines {rows : List String} (hempty : "" ∉ rows)
    (hfeed : ∀ row ∈ rows, '\n' ∉ row.toList) : splitLines (joinLines rows) = rows := by
  by_cases hrows : rows = []
  · subst hrows
    rfl
  · have hne := joinLines_ne_empty hrows hempty
    have hsplit : (joinLines rows).toList.splitOn '\n' = rows.map String.toList := by
      rw [joinLines, String.toList_intercalate]
      refine List.splitOn_intercalate '\n' ?_ (by simpa using hrows)
      intro cs hcs
      obtain ⟨row, hrow, rfl⟩ := List.mem_map.mp hcs
      exact hfeed row hrow
    simp [splitLines, hne, hsplit, Function.comp_def]

/-- A legible line is one line. -/
theorem Line.not_mem_text {l : Line} (hl : l.node.Legible) : '\n' ∉ l.text.toList := by
  have hindent : '\n' ∉ List.replicate (2 * l.level) ' ' := by
    intro h
    exact absurd (List.eq_of_mem_replicate h) (by decide)
  have hrange : '\n' ∉ rangeText l.start l.stop := by
    simp [rangeText, Point.not_mem_tail]
  have hfield : '\n' ∉ (fieldText l.field).toList := by
    cases hf : l.field with
    | none => simp [fieldText]
    | some f =>
        have hword : IsWord f := hl.field f (by simp [hf])
        simp [fieldText, hword.not_mem (c := '\n') (by decide)]
  have hlabel : '\n' ∉ l.label.text.toList := by
    obtain ⟨level, field, label, start, stop⟩ := l
    cases label with
    | named kind =>
        have hword : IsWord kind := hl.kind rfl
        simp [Label.text, hword.not_mem (c := '\n') (by decide)]
    | missing kind named =>
        cases named with
        | true =>
            have hword : IsWord kind := hl.kind rfl
            simp [Label.text, hword.not_mem (c := '\n') (by decide)]
        | false =>
            have htoken : '\n' ∉ kind.toList := hl.token rfl
            simp [Label.text, htoken]
  rw [toList_text, body]
  simp only [List.mem_append, not_or]
  exact ⟨hindent, ⟨hfield, hlabel⟩, hrange⟩

/-! ## Shown nodes -/

theorem Node.isSome_line? (n : Node) (level : Nat) : (n.line? level).isSome = n.shown := by
  rw [← n.isSome_label?, Node.line?, Option.isSome_map]

/-- What a line says: the depth of its node, and the node. -/
def Line.entry (l : Line) : Nat × Node :=
  (l.level, l.node)

theorem Line.entry_injective : Function.Injective Line.entry := by
  rintro ⟨level, field, label, start, stop⟩ ⟨level', field', label', start', stop'⟩ h
  cases label <;> cases label' <;> simp_all [Line.entry, Line.node]

/-- The line of an outline's entry says that entry. -/
theorem map_entry_line? (e : Nat × Node) :
    (e.2.line? e.1).map Line.entry = if e.2.shown then some e else none := by
  rw [← Node.isSome_line? e.2 e.1]
  cases h : e.2.line? e.1 with
  | none => rfl
  | some l =>
      have hlevel := Node.level_of_line? h
      have hnode := Line.node_of_line? h
      simp [Line.entry, hlevel, hnode]

theorem Forest.lines_eq_filterMap (f : Forest) (level : Nat) :
    f.lines level = (f.outline level).filterMap fun e => e.2.line? e.1 := by
  induction f generalizing level with
  | nil => rfl
  | cons node children siblings ihChildren ihSiblings =>
      rw [Forest.lines, Forest.outline, ihChildren, ihSiblings, List.filterMap_append,
        List.filterMap_cons]
      cases node.line? level <;> simp

namespace Tree

/-- The lines of a tree are those of its outline, in order. -/
theorem lines_eq_filterMap (t : Tree) :
    t.lines 0 = t.outline.filterMap fun e => e.2.line? e.1 := by
  rw [lines, outline, Forest.lines_eq_filterMap, List.filterMap_cons]
  cases t.node.line? 0 <;> rfl

/-- The shown nodes in pre-order, each with its depth. -/
def shownOutline (t : Tree) : List (Nat × Node) :=
  t.outline.filter fun e => e.2.shown

/-- The lines of a tree say what its shown nodes are. -/
theorem map_entry_lines (t : Tree) : (t.lines 0).map Line.entry = t.shownOutline := by
  have hentry : (fun e : Nat × Node => (e.2.line? e.1).map Line.entry) =
      Option.guard fun e => e.2.shown := by
    funext e
    rw [map_entry_line?, Option.guard]
  rw [lines_eq_filterMap, List.map_filterMap, hentry, List.filterMap_eq_filter, shownOutline]

theorem length_listing (t : Tree) : (t.listing 0).length = t.shownOutline.length := by
  rw [listing, List.length_map, ← map_entry_lines, List.length_map]

/-- A tree whose shown nodes are all legible. -/
def Legible (t : Tree) : Prop :=
  ∀ e ∈ t.outline, e.2.shown = true → e.2.Legible

instance (t : Tree) : Decidable t.Legible :=
  inferInstanceAs (Decidable (∀ e ∈ t.outline, e.2.shown = true → e.2.Legible))

theorem Legible.node_of_mem_lines {t : Tree} (ht : t.Legible) {l : Line}
    (hl : l ∈ t.lines 0) : l.node.Legible := by
  have hentry : l.entry ∈ t.shownOutline := by
    rw [← map_entry_lines]
    exact List.mem_map_of_mem hl
  obtain ⟨houtline, hshown⟩ := List.mem_filter.mp hentry
  exact ht _ houtline hshown

/-! ## Kept listings -/

/-- The lines of a legible tree are found again in its kept listing. -/
theorem Legible.splitLines {t : Tree} (ht : t.Legible) :
    splitLines (joinLines (t.listing 0)) = t.listing 0 := by
  refine splitLines_joinLines (not_mem_map_text _) ?_
  intro row hrow
  obtain ⟨l, hl, rfl⟩ := List.mem_map.mp hrow
  exact Line.not_mem_text (ht.node_of_mem_lines hl)

/-- Every line of a legible tree is read back. -/
theorem Legible.map_read?_listing {t : Tree} (ht : t.Legible) :
    (t.listing 0).map Line.read? = (t.lines 0).map some := by
  rw [listing, List.map_map]
  refine List.map_congr_left fun l hl => ?_
  rw [Function.comp_apply]
  exact Line.read?_text (ht.node_of_mem_lines hl)

/-- The kept listing of a legible tree determines its shown nodes. -/
theorem Legible.joinLines_inj {t u : Tree} (ht : t.Legible) (hu : u.Legible)
    (h : joinLines (t.listing 0) = joinLines (u.listing 0)) :
    t.shownOutline = u.shownOutline := by
  have hlisting : t.listing 0 = u.listing 0 := by
    rw [← ht.splitLines, h, hu.splitLines]
  have hsome : (t.lines 0).map some = (u.lines 0).map some := by
    rw [← ht.map_read?_listing, hlisting, hu.map_read?_listing]
  have hlines : t.lines 0 = u.lines 0 := (List.map_inj_right fun _ _ => Option.some.inj).mp hsome
  rw [← map_entry_lines, hlines, map_entry_lines]

/-- Trees with the same shown nodes have the same listing, whatever is not shown. -/
theorem listing_eq_of_shownOutline_eq {t u : Tree} (h : t.shownOutline = u.shownOutline) :
    t.listing 0 = u.listing 0 := by
  have hlines : t.lines 0 = u.lines 0 := by
    refine (List.map_inj_right fun _ _ heq => Line.entry_injective heq).mp ?_
    rw [map_entry_lines, map_entry_lines, h]
  rw [listing, listing, hlines]

end Tree

/-- Two kept listings are the same text exactly if the shown nodes of the two trees agree
in depth, field, kind, range and in whether they are named and missing.  The text has
one line for each shown node. -/
theorem joinLines_eq_iff_shownOutline_eq (c d : Cursor) (hc : c.Confined) (hd : d.Confined)
    (hlegible : c.subtree.Legible) (hlegible' : d.subtree.Legible) :
    ∃ rows last rows' last', c.render = .ok (rows, last) ∧ d.render = .ok (rows', last') ∧
      (joinLines rows = joinLines rows' ↔ c.subtree.shownOutline = d.subtree.shownOutline) ∧
      splitLines (joinLines rows) = rows ∧
      rows.length = c.subtree.shownOutline.length := by
  obtain ⟨last, hrender⟩ := Cursor.render_of_confined hc
  obtain ⟨last', hrender'⟩ := Cursor.render_of_confined hd
  refine ⟨_, last, _, last', hrender, hrender', ⟨?_, ?_⟩, hlegible.splitLines,
    Tree.length_listing _⟩
  · exact hlegible.joinLines_inj hlegible'
  · intro h
    rw [Tree.listing_eq_of_shownOutline_eq h]

/-- A block with a missing token whose kind looks like the end of a line, beside a token
of any kind that is not shown. -/
def sampleBlock (token : String) : Tree :=
  ⟨⟨"block", true, false, none, ⟨0, 0⟩, ⟨2, 1⟩⟩,
    .cons ⟨token, false, false, some "open here", ⟨0, 0⟩, ⟨0, 1⟩⟩ .nil
      (.cons ⟨"\" [0, 1] - [2, 3]", false, true, some "end", ⟨2, 0⟩, ⟨2, 1⟩⟩ .nil .nil)⟩

/-- The kind of a token that is not shown does not matter. -/
theorem joinLines_sampleBlock :
    (Cursor.atRoot (sampleBlock "(")).Confined ∧ (Cursor.atRoot (sampleBlock "\n")).Confined ∧
      (sampleBlock "(").Legible ∧ (sampleBlock "\n").Legible ∧
      ∃ rows last rows' last', (Cursor.atRoot (sampleBlock "(")).render = .ok (rows, last) ∧
        (Cursor.atRoot (sampleBlock "\n")).render = .ok (rows', last') ∧
        joinLines rows = joinLines rows' := by
  have hc := Cursor.confined_atRoot (sampleBlock "(")
  have hd := Cursor.confined_atRoot (sampleBlock "\n")
  have hlegible : (sampleBlock "(").Legible := by decide
  have hlegible' : (sampleBlock "\n").Legible := by decide
  obtain ⟨rows, last, rows', last', hrender, hrender', hiff, _⟩ :=
    joinLines_eq_iff_shownOutline_eq _ _ hc hd hlegible hlegible'
  exact ⟨hc, hd, hlegible, hlegible', rows, last, rows', last', hrender, hrender',
    hiff.mpr (by decide)⟩

end TreeListing
