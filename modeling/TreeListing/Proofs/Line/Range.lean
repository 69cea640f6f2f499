import TreeListing.Line

/-!
# Reading a range off a line

A line ends with its range, and what stands before the range may hold any text at all,
even text that looks like a range.  So a range is read from the end: `readRange?` cuts
at the last ` - `, cuts what is to the left of it at the last ` [`, and reads a point
from each right part.

`splitLast?_append` says when a cut is found where a separator was put: nothing of the
separator may start again further on.  A point holds no dash and no second opening
bracket, so both cuts of a range are found, and `readRange?_append_rangeText`
reads back every range behind every text.
-/

namespace TreeListing

namespace Point

/-! ## Reading a point -/

/-- The point whose written form without its opening bracket is given. -/
def ofTail? (cs : List Char) : Option Point :=
  match cs.dropWhile Char.isDigit with
  | ',' :: ' ' :: rest =>
      match rest.dropWhile Char.isDigit with
      | [']'] =>
          some ⟨Nat.ofDigitChars 10 (cs.takeWhile Char.isDigit) 0,
            Nat.ofDigitChars 10 (rest.takeWhile Char.isDigit) 0⟩
      | _ => none
  | _ => none

/-- The written form of a point without its opening bracket. -/
def tail (p : Point) : List Char :=
  Nat.toDigits 10 p.row ++ ',' :: ' ' :: (Nat.toDigits 10 p.column ++ [']'])

theorem toList_text (p : Point) : p.text.toList = '[' :: p.tail := by
  simp [Point.text, tail]

theorem isDigit_of_mem_row {p : Point} : ∀ c ∈ Nat.toDigits 10 p.row, c.isDigit = true :=
  fun _ => Nat.isDigit_of_mem_toDigits (by decide) (by decide)

theorem isDigit_of_mem_column {p : Point} :
    ∀ c ∈ Nat.toDigits 10 p.column, c.isDigit = true :=
  fun _ => Nat.isDigit_of_mem_toDigits (by decide) (by decide)

/-- A point can be read back. -/
theorem ofTail?_tail (p : Point) : ofTail? p.tail = some p := by
  have hrow := isDigit_of_mem_row (p := p)
  have hcolumn := isDigit_of_mem_column (p := p)
  simp [ofTail?, tail, List.takeWhile_append_of_pos hrow,
    List.dropWhile_append_of_pos hrow, List.takeWhile_append_of_pos hcolumn,
    List.dropWhile_append_of_pos hcolumn]

/-- The written form of a point holds digits, and three more characters. -/
theorem not_mem_tail {c : Char} (p : Point) (hdigit : c.isDigit = false)
    (hc : c ∉ [',', ' ', ']']) : c ∉ p.tail := by
  have hrow : c ∉ Nat.toDigits 10 p.row := fun h => by
    simp [isDigit_of_mem_row c h] at hdigit
  have hcolumn : c ∉ Nat.toDigits 10 p.column := fun h => by
    simp [isDigit_of_mem_column c h] at hdigit
  simp_all [tail]

end Point

namespace Line

/-! ## Cutting at the last separator -/

/-- The parts of a text before and after the last occurrence of a separator. -/
def splitLast? (sep : List Char) : List Char → Option (List Char × List Char)
  | [] => none
  | c :: cs =>
      match splitLast? sep cs with
      | some (before, after) => some (c :: before, after)
      | none =>
          if sep.isPrefixOf (c :: cs) then some ([], (c :: cs).drop sep.length) else none

/-- A text without some character of the separator is not cut. -/
theorem splitLast?_eq_none {sep cs : List Char} {d : Char} (hsep : d ∈ sep) (hcs : d ∉ cs) :
    splitLast? sep cs = none := by
  induction cs with
  | nil => rfl
  | cons c cs ih =>
      have hfront : sep.isPrefixOf (c :: cs) = false := by
        rw [Bool.eq_false_iff]
        intro h
        exact hcs ((List.isPrefixOf_iff_prefix.mp h).subset hsep)
      have hrest : d ∉ cs := fun h => hcs (List.mem_cons_of_mem _ h)
      simp [splitLast?, ih hrest, hfront]

theorem splitLast?_cons_eq_none {sep cs : List Char} {c : Char}
    (hcs : splitLast? sep cs = none) (hfront : sep.isPrefixOf (c :: cs) = false) :
    splitLast? sep (c :: cs) = none := by
  simp [splitLast?, hcs, hfront]

/-- A separator is found where it stands if none starts after its first character. -/
theorem splitLast?_append {s : Char} {sep after : List Char}
    (h : splitLast? (s :: sep) (sep ++ after) = none) (before : List Char) :
    splitLast? (s :: sep) (before ++ s :: sep ++ after) = some (before, after) := by
  induction before with
  | nil => simp [splitLast?, h]
  | cons c before ih =>
      simp only [List.append_assoc, List.cons_append] at ih ⊢
      simp [splitLast?, ih]

/-! ## Reading a range -/

/-- The written form of a range with the space before it. -/
def rangeText (start stop : Point) : List Char :=
  ' ' :: '[' :: start.tail ++ ' ' :: '-' :: ' ' :: '[' :: stop.tail

/-- The range at the end of a text, with the text before it. -/
def readRange? (cs : List Char) : Option (List Char × Point × Point) :=
  match splitLast? " - ".toList cs with
  | some (left, '[' :: stop) =>
      match splitLast? " [".toList left with
      | some (before, start) =>
          match Point.ofTail? start, Point.ofTail? stop with
          | some start, some stop => some (before, start, stop)
          | _, _ => none
      | none => none
  | _ => none

/-- The last ` - ` behind any text stands inside the range that follows it. -/
theorem splitLast?_rangeText (before : List Char) (start stop : Point) :
    splitLast? " - ".toList (before ++ rangeText start stop) =
      some (before ++ ' ' :: '[' :: start.tail, '[' :: stop.tail) := by
  have hdash : '-' ∉ ' ' :: '[' :: stop.tail := by
    simp [Point.not_mem_tail]
  have hrest : splitLast? [' ', '-', ' '] (['-', ' '] ++ '[' :: stop.tail) = none :=
    splitLast?_cons_eq_none (splitLast?_eq_none (by decide) hdash) (by rfl)
  have := splitLast?_append hrest (before ++ ' ' :: '[' :: start.tail)
  simpa [rangeText] using this

/-- The last ` [` behind any text opens the point that follows it. -/
theorem splitLast?_start (before : List Char) (start : Point) :
    splitLast? " [".toList (before ++ ' ' :: '[' :: start.tail) = some (before, start.tail) := by
  have hbracket : '[' ∉ start.tail := by
    simp [Point.not_mem_tail]
  have hrest : splitLast? [' ', '['] (['['] ++ start.tail) = none :=
    splitLast?_cons_eq_none (splitLast?_eq_none (by decide) hbracket) (by rfl)
  have := splitLast?_append hrest before
  simpa using this

/-- A range can be read back behind any text. -/
theorem readRange?_append_rangeText (before : List Char) (start stop : Point) :
    readRange? (before ++ rangeText start stop) = some (before, start, stop) := by
  unfold readRange?
  rw [splitLast?_rangeText]
  simp only
  rw [splitLast?_start]
  simp only [Point.ofTail?_tail]

end Line

end TreeListing
