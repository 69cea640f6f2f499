import TreeListing.Yaml.Scalar.Quoted

/-!
# Writing a quoted scalar

Any text can be written between double quotes in printable ASCII alone.  A backslash and a double
quote are written after a backslash, and what does not print is written by its code point, with
two, four or eight digits.  A `Style` chooses among these where more than one is wide enough.

`scan_quoted` says that such a scalar reads back as the text that was written, whatever stands
behind its closing quote.  Spaces are the reason for the care: they are gathered until another
character follows, so what has been read at some place is the text before and the gap together.
-/

namespace TreeListing.Yaml

namespace Mark

@[simp] theorem forward_forward (m : Mark) (a b : Nat) :
    (m.forward a).forward b = m.forward (a + b) := by
  simp [forward, Nat.add_assoc]

@[simp] theorem line_forward (m : Mark) (n : Nat) : (m.forward n).line = m.line := rfl

@[simp] theorem column_forward (m : Mark) (n : Nat) : (m.forward n).column = m.column + n := rfl

@[simp] theorem index_forward (m : Mark) (n : Nat) : (m.forward n).index = m.index + n := rfl

end Mark

namespace Quoted

/-! ## Written characters -/

/-- A hexadecimal digit, with letters in upper or in lower case. -/
def hexDigit (upper : Bool) (d : Nat) : Char :=
  if upper then d.digitChar.toUpper else d.digitChar

/-- The last `width` hexadecimal digits of a number. -/
def hexDigits (upper : Bool) : Nat → Nat → List Char
  | 0, _ => []
  | width + 1, n => hexDigits upper width (n / 16) ++ [hexDigit upper (n % 16)]

/-- What prints in ASCII. -/
def Prints (c : Char) : Prop :=
  0x20 ≤ c.toNat ∧ c.toNat ≤ 0x7E

instance (c : Char) : Decidable (Prints c) :=
  inferInstanceAs (Decidable (_ ∧ _))

/-- How characters that do not print are written: with letters in upper or in lower case, and with
so many digits at least. -/
structure Style where
  upper : Char → Bool
  digits : Char → Nat

/-- With as few digits as a character needs. -/
def Style.short (upper : Bool) : Style :=
  ⟨fun _ => upper, fun _ => 2⟩

/-- A character as it is written between double quotes. -/
def written (style : Style) (c : Char) : List Char :=
  if c = '\\' ∨ c = '"' then ['\\', c]
  else if Prints c then [c]
  else if c.toNat < 0x100 ∧ style.digits c ≤ 2 then
    '\\' :: 'x' :: hexDigits (style.upper c) 2 c.toNat
  else if c.toNat < 0x10000 ∧ style.digits c ≤ 4 then
    '\\' :: 'u' :: hexDigits (style.upper c) 4 c.toNat
  else '\\' :: 'U' :: hexDigits (style.upper c) 8 c.toNat

/-- A text in double quotes. -/
def quoted (style : Style) (s : String) : List Char :=
  '"' :: (s.toList.flatMap (written style) ++ ['"'])

/-! ## Hexadecimal digits -/

theorem hexDigit_cases (upper : Bool) {d : Nat} (h : d < 16) :
    hexValue? (hexDigit upper d) = some d ∧ Prints (hexDigit upper d) := by
  have htable : ∀ upper : Bool, ∀ d < 16,
      hexValue? (hexDigit upper d) = some d ∧ Prints (hexDigit upper d) := by decide
  exact htable upper d h

@[simp] theorem length_hexDigits (upper : Bool) (width n : Nat) :
    (hexDigits upper width n).length = width := by
  induction width generalizing n with
  | zero => rfl
  | succ width ih => simp [hexDigits, ih]

theorem prints_of_mem_hexDigits {upper : Bool} {width n : Nat} {c : Char}
    (h : c ∈ hexDigits upper width n) : Prints c := by
  induction width generalizing n with
  | zero => simp [hexDigits] at h
  | succ width ih =>
      simp only [hexDigits, List.mem_append, List.mem_singleton] at h
      rcases h with h | rfl
      · exact ih h
      · exact (hexDigit_cases upper (Nat.mod_lt n (by decide))).2

/-- The digits of a number that is not too wide for them read back as the number. -/
theorem hexNumber?_hexDigits (upper : Bool) {width n : Nat} (h : n < Nat.pow 16 width) :
    hexNumber? (hexDigits upper width n) = some n := by
  induction width generalizing n with
  | zero =>
      obtain rfl : n = 0 := by simpa using h
      rfl
  | succ width ih =>
      have hhigh : n / 16 < Nat.pow 16 width := by
        have hpow : Nat.pow 16 (width + 1) = Nat.pow 16 width * 16 := rfl
        omega
      have hlow := (hexDigit_cases upper (Nat.mod_lt n (by decide))).1
      have hfront := ih hhigh
      rw [hexNumber?] at hfront ⊢
      rw [hexDigits, List.foldlM_append, hfront]
      simp [hlow, Nat.div_add_mod]

/-! ## Escapes -/

theorem character?_toNat (c : Char) : character? c.toNat = some c := by
  have hvalid : c.toNat.isValidChar := c.valid
  rw [character?, dif_pos hvalid]
  rfl

/-- A code point that is not too wide for its digits reads back as the character. -/
theorem escape_hexDigits (letter : Char) {width : Nat} (hletter : common? letter = none)
    (hcount : digitCount? letter = some width) (upper : Bool) {c : Char}
    (hc : c.toNat < Nat.pow 16 width) (rest : List Char) :
    escape (letter :: (hexDigits upper width c.toNat ++ rest)) = .ok (c, 1 + width) := by
  have htake : (hexDigits upper width c.toNat ++ rest).take width =
      hexDigits upper width c.toNat :=
    List.take_left' (length_hexDigits upper width c.toNat)
  simp [escape, hletter, hcount, htake, hexNumber?_hexDigits upper hc, character?_toNat]

/-- A character is written as it is, or as an escape that reads back as the character. -/
theorem written_cases (style : Style) (c : Char) :
    (written style c = [c] ∧ Prints c ∧ c ≠ '\\' ∧ c ≠ '"') ∨
      ∃ code, written style c = '\\' :: code ∧
        ∀ rest, breakAhead (code ++ rest) = false ∧
          escape (code ++ rest) = .ok (c, code.length) := by
  unfold written
  split
  · rename_i h
    refine .inr ⟨[c], rfl, fun rest => ?_⟩
    rcases h with rfl | rfl <;> exact ⟨rfl, rfl⟩
  · rename_i h
    rw [not_or] at h
    split
    · rename_i hprints
      exact .inl ⟨rfl, hprints, h.1, h.2⟩
    · refine .inr ?_
      split
      · rename_i hc
        refine ⟨_, rfl, fun rest => ⟨rfl, ?_⟩⟩
        simpa [Nat.add_comm] using escape_hexDigits 'x' rfl rfl (style.upper c) hc.1 rest
      · split
        · rename_i hc
          refine ⟨_, rfl, fun rest => ⟨rfl, ?_⟩⟩
          simpa [Nat.add_comm] using escape_hexDigits 'u' rfl rfl (style.upper c) hc.1 rest
        · refine ⟨_, rfl, fun rest => ⟨rfl, ?_⟩⟩
          have hc : c.toNat < Nat.pow 16 8 := c.val.toNat_lt
          simpa [Nat.add_comm] using escape_hexDigits 'U' rfl rfl (style.upper c) hc rest

theorem prints_of_mem_written {style : Style} {c d : Char} (h : d ∈ written style c) :
    Prints d := by
  unfold written at h
  split at h
  · rename_i hc
    simp only [List.mem_cons, List.not_mem_nil, or_false] at h
    rcases h with rfl | rfl
    · decide
    · rcases hc with rfl | rfl <;> decide
  · split at h
    · rename_i hc
      rwa [List.mem_singleton.mp h]
    · split at h
      · simp only [List.mem_cons] at h
        rcases h with rfl | rfl | h
        · decide
        · decide
        · exact prints_of_mem_hexDigits h
      · split at h <;>
        · simp only [List.mem_cons] at h
          rcases h with rfl | rfl | h
          · decide
          · decide
          · exact prints_of_mem_hexDigits h

theorem prints_of_mem_quoted {style : Style} {s : String} {c : Char} (h : c ∈ quoted style s) :
    Prints c := by
  simp only [quoted, List.mem_cons, List.mem_append, List.mem_flatMap, List.not_mem_nil,
    or_false] at h
  rcases h with rfl | ⟨_, _, h⟩ | rfl
  · decide
  · exact prints_of_mem_written h
  · decide

/-! ## Reading back -/

theorem Prints.isBreak {c : Char} (h : Prints c) : isBreak c = false := by
  obtain ⟨hlow, hhigh⟩ := h
  simp only [Yaml.isBreak, Bool.or_eq_false_iff, beq_eq_false_iff_ne]
  refine ⟨⟨⟨⟨?_, ?_⟩, ?_⟩, ?_⟩, ?_⟩ <;> rintro rfl <;> simp at hlow hhigh

theorem Prints.isBlank_iff {c : Char} (h : Prints c) : isBlank c = true ↔ c = ' ' := by
  have htab : c ≠ '\t' := by
    rintro rfl
    exact absurd h.1 (by decide)
  simp [Yaml.isBlank, htab]

/-- The characters of an escape are passed over. -/
theorem readOn_append (quote : Char) (start : Mark) (chars rest : List Char) (m : Mark) (g : Gap)
    (read : List Char) :
    readOn quote start chars.length (chars ++ rest) m g read =
      readOn quote start 0 rest m g read := by
  induction chars with
  | nil => rfl
  | cons c chars ih => simpa [readOn] using ih

/-- A gap that holds blanks only reads as these blanks. -/
theorem text_blank {g : Gap} (hg : g.first = none) :
    (g.blank ' ').first = none ∧ (g.blank ' ').text = g.text ++ [' '] := by
  obtain ⟨blanks, first, more⟩ := g
  subst hg
  exact ⟨rfl, rfl⟩

/-- Reading a written character adds the character to what has been read, the gap included. -/
theorem readOn_written (style : Style) (start : Mark) (c : Char) (rest : List Char) {m : Mark}
    (hm : 0 < m.column) {g : Gap} (hg : g.first = none) (read : List Char) :
    ∃ g' read', g'.first = none ∧
      g'.text.reverse ++ read' = c :: (g.text.reverse ++ read) ∧
      readOn '"' start 0 (written style c ++ rest) m g read =
        readOn '"' start 0 rest (m.forward (written style c).length) g' read' := by
  have hcolumn : (m.column == 0) = false := by simp; omega
  obtain ⟨hwritten, hprints, hbackslash, hquote⟩ | ⟨code, hwritten, hcode⟩ :=
    written_cases style c
  · rw [hwritten]
    by_cases hspace : c = ' '
    · obtain ⟨hfirst, htext⟩ := text_blank hg
      refine ⟨g.blank ' ', read, hfirst, by simp [htext, hspace], ?_⟩
      subst hspace
      simp [readOn, hcolumn, Yaml.isBreak, isBlank]
    · have hblank : isBlank c = false := by
        rw [← Bool.not_eq_true, hprints.isBlank_iff]
        exact hspace
      refine ⟨.none, c :: (g.text.reverse ++ read), rfl, rfl, ?_⟩
      simp [readOn, hprints.isBreak, hcolumn, hblank, hquote, hbackslash]
  · obtain ⟨hbreak, hescape⟩ := hcode rest
    refine ⟨.none, c :: (g.text.reverse ++ read), rfl, rfl, ?_⟩
    rw [hwritten]
    simp [readOn, Yaml.isBreak, isBlank, hcolumn, hbreak, hescape, readOn_append, Nat.add_comm]

/-- Reading a written text adds the text, and the closing quote ends the scalar. -/
theorem readOn_flatMap (style : Style) (start : Mark) (s rest : List Char) {m : Mark}
    (hm : 0 < m.column) {g : Gap} (hg : g.first = none) (read : List Char) :
    readOn '"' start 0 (s.flatMap (written style) ++ '"' :: rest) m g read =
      .ok ⟨(g.text.reverse ++ read).reverse ++ s,
        ⟨rest, m.forward ((s.flatMap (written style)).length + 1)⟩⟩ := by
  induction s generalizing m g read with
  | nil =>
      have hcolumn : (m.column == 0) = false := by simp; omega
      simp [readOn, Yaml.isBreak, isBlank, hcolumn]
  | cons c s ih =>
      obtain ⟨g', read', hg', hread, hstep⟩ :=
        readOn_written style start c (s.flatMap (written style) ++ '"' :: rest) hm hg read
      have hm' : 0 < (m.forward (written style c).length).column := by
        simp only [Mark.column_forward]
        omega
      rw [List.flatMap_cons, List.append_assoc, hstep, ih hm' hg' read', hread]
      simp [Nat.add_assoc]

/-- A quoted text reads back as the text, whatever stands behind it. -/
theorem scan_quoted (style : Style) (s : String) (rest : List Char) (m : Mark) :
    scan '"' ⟨quoted style s ++ rest, m⟩ =
      .ok ⟨s.toList, ⟨rest, m.forward (quoted style s).length⟩⟩ := by
  have hm : 0 < (m.forward 1).column := by simp
  have hread := readOn_flatMap style m s.toList rest hm (g := .none) rfl []
  simpa [scan, quoted, Gap.text, Gap.none, Nat.add_comm, Nat.add_assoc] using hread

end Quoted

end TreeListing.Yaml
