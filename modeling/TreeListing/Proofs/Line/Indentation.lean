import TreeListing.Proofs.Line.Range

/-!
# Reading the indentation of a line

The spaces that a line starts with are its indentation, unless its field or its kind
starts with a space too or leaves the line without text there.  `Node.Flush` rules that
out, and then `leadingSpaces_text` counts two spaces for each level.
-/

namespace TreeListing

/-- A run is split off in front of whatever does not continue it. -/
theorem takeWhile_append_of_head? {α : Type} {p : α → Bool} {run rest : List α}
    (hrun : ∀ x ∈ run, p x = true) (hrest : ∀ x ∈ rest.head?, p x = false) :
    (run ++ rest).takeWhile p = run ∧ (run ++ rest).dropWhile p = rest := by
  rw [List.takeWhile_append_of_pos hrun, List.dropWhile_append_of_pos hrun]
  cases rest with
  | nil => simp
  | cons x rest => simp [hrest x rfl]

/-- A text that is not empty and does not start with a space. -/
def StartsFlush (s : String) : Prop :=
  s ≠ "" ∧ s.toList.head? ≠ some ' '

instance (s : String) : Decidable (StartsFlush s) :=
  inferInstanceAs (Decidable (_ ∧ _))

theorem StartsFlush.exists_cons {s : String} (hs : StartsFlush s) :
    ∃ c cs, s.toList = c :: cs ∧ c ≠ ' ' := by
  obtain ⟨hne, hhead⟩ := hs
  cases h : s.toList with
  | nil => exact absurd (String.toList_eq_nil_iff.mp h) hne
  | cons c cs => exact ⟨c, cs, rfl, by simpa [h] using hhead⟩

/-- A node whose text on its line does not start with a space. -/
structure Node.Flush (n : Node) : Prop where
  field : ∀ f ∈ n.field, StartsFlush f
  kind : n.named = true → StartsFlush n.kind

instance (n : Node) : Decidable n.Flush :=
  decidable_of_iff ((∀ f ∈ n.field, StartsFlush f) ∧ (n.named = true → StartsFlush n.kind))
    ⟨fun h => ⟨h.1, h.2⟩, fun h => ⟨h.field, h.kind⟩⟩

/-- The number of spaces that a text starts with. -/
def leadingSpaces (s : String) : Nat :=
  (s.toList.takeWhile (· == ' ')).length

namespace Line

/-- The node that a line belongs to. -/
def node (l : Line) : Node :=
  match l.label with
  | .named kind => ⟨kind, true, false, l.field, l.start, l.stop⟩
  | .missing kind named => ⟨kind, named, true, l.field, l.start, l.stop⟩

theorem node_of_line? {n : Node} {level : Nat} {l : Line} (h : n.line? level = some l) :
    l.node = n := by
  obtain ⟨kind, named, missing, field, start, stop⟩ := n
  cases missing <;> cases named <;>
    simp [Node.line?, Node.label?] at h <;> subst h <;> rfl

@[simp] theorem field_node (l : Line) : l.node.field = l.field := by
  unfold node
  split <;> rfl

/-- The written form of a line between its indentation and its range. -/
def body (l : Line) : List Char :=
  (fieldText l.field).toList ++ l.label.text.toList

theorem toList_text (l : Line) :
    l.text.toList = List.replicate (2 * l.level) ' ' ++ (l.body ++ rangeText l.start l.stop) := by
  simp [text, body, indentation, rangeText, Point.toList_text]

/-- A line of a flush node has text, and it does not start with a space. -/
theorem body_eq_cons {l : Line} (hl : l.node.Flush) : ∃ c cs, l.body = c :: cs ∧ c ≠ ' ' := by
  obtain ⟨level, field, label, start, stop⟩ := l
  cases field with
  | some f =>
      have hflush : StartsFlush f := hl.field f (by simp)
      obtain ⟨c, cs, hf, hc⟩ := hflush.exists_cons
      exact ⟨c, cs ++ ':' :: ' ' :: label.text.toList, by simp [body, fieldText, hf], hc⟩
  | none =>
      cases label with
      | named kind =>
          have hflush : StartsFlush kind := hl.kind rfl
          obtain ⟨c, cs, hkind, hc⟩ := hflush.exists_cons
          exact ⟨c, cs, by simp [body, fieldText, Label.text, hkind], hc⟩
      | missing kind named =>
          cases named <;> simp [body, fieldText, Label.text]

/-- Spaces are read off in front of any other character. -/
theorem span_spaces (n : Nat) {c : Char} (hc : c ≠ ' ') (cs : List Char) :
    (List.replicate n ' ' ++ c :: cs).takeWhile (· == ' ') = List.replicate n ' ' ∧
      (List.replicate n ' ' ++ c :: cs).dropWhile (· == ' ') = c :: cs := by
  have hspaces : ∀ d ∈ List.replicate n ' ', (d == ' ') = true := by
    intro d hd
    simp [List.eq_of_mem_replicate hd]
  exact takeWhile_append_of_head? hspaces (by simpa using hc)

/-- A line starts with two spaces for each level and no more. -/
theorem leadingSpaces_text {l : Line} (hl : l.node.Flush) :
    leadingSpaces l.text = 2 * l.level := by
  obtain ⟨c, cs, hbody, hc⟩ := body_eq_cons hl
  rw [leadingSpaces, toList_text, hbody, List.cons_append, (span_spaces _ hc _).1,
    List.length_replicate]

end Line

end TreeListing
