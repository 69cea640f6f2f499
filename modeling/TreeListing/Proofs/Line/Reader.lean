import Mathlib.Data.List.TakeWhile
import TreeListing.Proofs.Line.Indentation

/-!
# Reading a line

Nothing in a line is escaped, yet a line can be read back when fields and the kinds of
named nodes are words.  The range is read off the end, whatever stands before it.  The
leading spaces are the indentation, since a word or `MISSING` follows them.  A word that
a colon follows is a field.  What is left is the label: a named kind holds no space, and
what follows `MISSING` is a quoted token or a word.

`Node.Legible` states the assumption on a node, `Line.read?` is the reader, and
`read?_text` says that it reads back every legible line.
-/

namespace TreeListing

/-! ## Words -/

/-- An ASCII letter, an ASCII digit or an underscore. -/
def isWordChar (c : Char) : Bool :=
  c.isAlphanum || c == '_'

/-- A text that is not empty and has only letters, digits and underscores. -/
def IsWord (s : String) : Prop :=
  s ≠ "" ∧ ∀ c ∈ s.toList, isWordChar c = true

instance (s : String) : Decidable (IsWord s) :=
  -- Decided along the text: there is another instance, which goes through all characters.
  have : Decidable (∀ c ∈ s.toList, isWordChar c = true) := List.decidableBAll _ _
  inferInstanceAs (Decidable (_ ∧ _))

theorem IsWord.toList_ne_nil {s : String} (hs : IsWord s) : s.toList ≠ [] := by
  simpa using hs.1

/-- A word holds no character that is not a word character. -/
theorem IsWord.not_mem {s : String} (hs : IsWord s) {c : Char} (hc : isWordChar c = false) :
    c ∉ s.toList := by
  intro h
  simp [hs.2 c h] at hc

/-- A run of word characters is read off in front of any other character. -/
theorem takeWhile_word {s : String} (hs : IsWord s) {c : Char} (hc : isWordChar c = false)
    (rest : List Char) :
    (s.toList ++ c :: rest).takeWhile isWordChar = s.toList ∧
      (s.toList ++ c :: rest).dropWhile isWordChar = c :: rest :=
  takeWhile_append_of_head? hs.2 (by simpa using hc)

/-- A node whose line can be read back: its field and the kind of a named node are words,
and a token is on one line. -/
structure Node.Legible (n : Node) : Prop where
  field : ∀ f ∈ n.field, IsWord f
  kind : n.named = true → IsWord n.kind
  token : n.named = false → '\n' ∉ n.kind.toList

instance (n : Node) : Decidable n.Legible :=
  decidable_of_iff ((∀ f ∈ n.field, IsWord f) ∧ (n.named = true → IsWord n.kind) ∧
      (n.named = false → '\n' ∉ n.kind.toList))
    ⟨fun h => ⟨h.1, h.2.1, h.2.2⟩, fun h => ⟨h.field, h.kind, h.token⟩⟩

theorem IsWord.startsFlush {s : String} (hs : IsWord s) : StartsFlush s := by
  refine ⟨hs.1, fun h => ?_⟩
  exact hs.not_mem (c := ' ') (by decide) (List.mem_of_mem_head? h)

theorem Node.Legible.flush {n : Node} (hn : n.Legible) : n.Flush :=
  ⟨fun f hf => (hn.field f hf).startsFlush, fun hnamed => (hn.kind hnamed).startsFlush⟩

namespace Line

/-! ## Labels -/

/-- The label with a written form.  Only `MISSING` is followed by a space, and only a
token by a quotation mark after that. -/
def readLabel (cs : List Char) : Label :=
  match cs.dropWhile (· != ' ') with
  | [] => .named (String.ofList cs)
  | _ :: '"' :: rest => .missing (String.ofList rest.dropLast) false
  | _ :: rest => .missing (String.ofList rest) true

theorem readLabel_text {l : Line} (hl : l.node.Legible) :
    readLabel l.label.text.toList = l.label := by
  obtain ⟨level, field, label, start, stop⟩ := l
  cases label with
  | named kind =>
      have hword : IsWord kind := hl.kind rfl
      have hnospace : ∀ c ∈ kind.toList, (c != ' ') = true := by
        intro c hc
        have : c ≠ ' ' := by
          rintro rfl
          exact hword.not_mem (by decide) hc
        simpa using this
      have hdrop := List.dropWhile_eq_nil_iff.mpr hnospace
      simp [readLabel, Label.text, hdrop]
  | missing kind named =>
      cases named with
      | false => simp [readLabel, Label.text]
      | true =>
          have hword : IsWord kind := hl.kind rfl
          cases hkind : kind.toList with
          | nil => exact absurd hkind hword.toList_ne_nil
          | cons c cs =>
              have hc : c ≠ '"' := by
                rintro rfl
                exact hword.not_mem (c := '"') (by decide) (by simp [hkind])
              have : readLabel (Label.missing kind true).text.toList =
                  .missing (String.ofList (c :: cs)) true := by
                simp [readLabel, Label.text, hkind, hc]
              rw [this, ← hkind, String.ofList_toList]

/-! ## Lines -/

/-- The field and the label with a written form. -/
def readHead (cs : List Char) : Option String × Label :=
  match cs.dropWhile isWordChar with
  | ':' :: ' ' :: rest => (some (String.ofList (cs.takeWhile isWordChar)), readLabel rest)
  | _ => (none, readLabel cs)

/-- A field is told by the colon that follows its word; no label has one there. -/
theorem readHead_body {l : Line} (hl : l.node.Legible) :
    readHead l.body = (l.field, l.label) := by
  have hlabel := readLabel_text hl
  obtain ⟨level, field, label, start, stop⟩ := l
  cases field with
  | some f =>
      have hword : IsWord f := hl.field f (by simp)
      obtain ⟨htake, hdrop⟩ := takeWhile_word hword (c := ':') (by decide)
        (' ' :: label.text.toList)
      have hbody : body ⟨level, some f, label, start, stop⟩ =
          f.toList ++ ':' :: ' ' :: label.text.toList := by
        simp [body, fieldText]
      rw [hbody, readHead, hdrop, htake]
      simp [hlabel]
  | none =>
      have hbody : body ⟨level, none, label, start, stop⟩ = label.text.toList := by
        simp [body, fieldText]
      have hnocolon : ∀ rest, label.text.toList.dropWhile isWordChar ≠ ':' :: rest := by
        cases label with
        | named kind =>
            have hword : IsWord kind := hl.kind rfl
            simp [Label.text, List.dropWhile_eq_nil_iff.mpr hword.2]
        | missing kind named =>
            cases named <;> simp [Label.text, isWordChar]
      rw [hbody, readHead, hlabel]
      split
      · rename_i rest h
        exact absurd h (hnocolon _)
      · rfl

/-- The line with a written form. -/
def read? (s : String) : Option Line :=
  match readRange? s.toList with
  | none => none
  | some (before, start, stop) =>
      let spaces := before.takeWhile (· == ' ')
      let (field, label) := readHead (before.dropWhile (· == ' '))
      some ⟨spaces.length / 2, field, label, start, stop⟩

/-- A legible line can be read back. -/
theorem read?_text {l : Line} (hl : l.node.Legible) : read? l.text = some l := by
  obtain ⟨c, cs, hbody, hc⟩ := body_eq_cons hl.flush
  obtain ⟨htake, hdrop⟩ := span_spaces (2 * l.level) hc cs
  have hhead := readHead_body hl
  rw [hbody] at hhead
  rw [read?, toList_text, ← List.append_assoc, readRange?_append_rangeText]
  simp only
  rw [hbody, htake, hdrop, hhead]
  simp

end Line

end TreeListing
