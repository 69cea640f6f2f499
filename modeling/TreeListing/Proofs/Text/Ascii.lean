import Mathlib.Tactic.SplitIfs
import TreeListing.Text.Utf8

/-!
# ASCII characters in bytes and texts

The separator of paths is an ASCII character, and so is the byte that ends a name.  In the
UTF-8 form of a text an ASCII byte stands for nothing but its own character
(`mem_bytes_iff`).  Showing bytes as text adds no ASCII character either: one that shows
was a byte before (`mem_of_mem_lossy`), whatever has to be replaced around it.
-/

namespace TreeListing.Text

/-! ## The bytes of a text -/

theorem bytes_eq_flatMap (s : String) : bytes s = s.toList.flatMap String.utf8EncodeChar := by
  have h : s.toByteArray = s.toList.utf8Encode := String.utf8Encode_toList.symm
  rw [bytes, String.toUTF8_eq_toByteArray, h, List.utf8Encode]
  simp

@[simp] theorem bytes_append (s t : String) : bytes (s ++ t) = bytes s ++ bytes t := by
  simp [bytes_eq_flatMap]

theorem bytes_injective {s t : String} (h : bytes s = bytes t) : s = t := by
  have hsome : ofBytes? (bytes s) = ofBytes? (bytes t) := by rw [h]
  simpa using hsome

/-- Bytes that are read as a text are its UTF-8 form. -/
theorem bytes_of_ofBytes? {b : Bytes} {s : String} (h : ofBytes? b = some s) : bytes s = b := by
  unfold ofBytes? String.fromUTF8? at h
  split at h
  · rw [Option.some.injEq] at h
    simp [bytes, ← h, String.fromUTF8]
  · simp at h

/-- The bytes of a character that is not ASCII are not ASCII. -/
theorem le_of_mem_utf8EncodeChar {c : Char} {x : UInt8} (hc : 128 ≤ c.toNat)
    (hx : x ∈ String.utf8EncodeChar c) : 128 ≤ x.toNat := by
  have hval : c.val.toNat = c.toNat := rfl
  unfold String.utf8EncodeChar at hx
  simp only [hval] at hx
  split at hx
  · omega
  · split at hx
    · simp only [List.mem_cons, List.not_mem_nil, or_false] at hx
      rcases hx with rfl | rfl <;> simp only [UInt8.toNat_ofNat'] <;> omega
    · split at hx
      · simp only [List.mem_cons, List.not_mem_nil, or_false] at hx
        rcases hx with rfl | rfl | rfl <;> simp only [UInt8.toNat_ofNat'] <;> omega
      · simp only [List.mem_cons, List.not_mem_nil, or_false] at hx
        rcases hx with rfl | rfl | rfl | rfl <;> simp only [UInt8.toNat_ofNat'] <;> omega

theorem utf8EncodeChar_of_ascii {c : Char} (hc : c.toNat < 128) :
    String.utf8EncodeChar c = [UInt8.ofNat c.toNat] := by
  have hval : c.val.toNat = c.toNat := rfl
  unfold String.utf8EncodeChar
  simp only [hval]
  rw [if_pos (by omega)]

/-- An ASCII byte of a text is one of its characters. -/
theorem mem_bytes_iff {c : Char} (hc : c.toNat < 128) (s : String) :
    UInt8.ofNat c.toNat ∈ bytes s ↔ c ∈ s.toList := by
  rw [bytes_eq_flatMap, List.mem_flatMap]
  constructor
  · rintro ⟨d, hd, hmem⟩
    have hbyte : (UInt8.ofNat c.toNat).toNat = c.toNat := by
      rw [UInt8.toNat_ofNat']
      omega
    rcases Nat.lt_or_ge d.toNat 128 with hlt | hge
    · rw [utf8EncodeChar_of_ascii hlt, List.mem_singleton] at hmem
      have hsame : c.toNat = d.toNat := by
        have := congrArg UInt8.toNat hmem
        rw [hbyte, UInt8.toNat_ofNat'] at this
        omega
      rwa [Char.toNat_inj.mp hsame]
    · have := le_of_mem_utf8EncodeChar hge hmem
      omega
  · intro h
    exact ⟨c, h, by rw [utf8EncodeChar_of_ascii hc, List.mem_singleton]⟩

/-! ## Bytes shown as text -/

theorem continuation_eq_cons {n : Nat} {low high : UInt8} {b : Bytes}
    (h : (continuation (n + 1) low high b).length = n + 1) :
    ∃ t rest, continuation (n + 1) low high b = t :: rest ∧ low ≤ t ∧ t ≤ high ∧
      rest.length = n := by
  cases b with
  | nil => simp [continuation] at h
  | cons t b =>
      rw [continuation] at h ⊢
      split at h
      · next hrange =>
          simp only [Bool.and_eq_true, decide_eq_true_eq] at hrange
          exact ⟨t, _, if_pos (by simpa using hrange), hrange.1, hrange.2, by simpa using h⟩
      · simp at h

theorem le_foldl_digits (tail : Bytes) (n : Nat) :
    n * Nat.pow 64 tail.length ≤ tail.foldl (fun n c => n * 64 + c.toNat % 64) n := by
  induction tail generalizing n with
  | nil => simp
  | cons c tail ih =>
      have hstep : n * Nat.pow 64 (tail.length + 1) ≤
          (n * 64 + c.toNat % 64) * Nat.pow 64 tail.length :=
        calc n * Nat.pow 64 (tail.length + 1) = n * (64 * Nat.pow 64 tail.length) := by
              rw [Nat.pow_eq, Nat.pow_succ', Nat.pow_eq]
          _ = n * 64 * Nat.pow 64 tail.length := by rw [Nat.mul_assoc]
          _ ≤ (n * 64 + c.toNat % 64) * Nat.pow 64 tail.length :=
            Nat.mul_le_mul_right _ (Nat.le_add_right _ _)
      exact Nat.le_trans hstep (ih _)

/-- What begins with a byte that begins more than one byte is no ASCII character. -/
theorem leads_cases {b : UInt8} {size : Nat} {low high : UInt8}
    (h : leads b = some (size, low, high)) :
    (size = 1 ∧ b.toNat < 128) ∨ ∃ n, size = n + 2 ∧ ∀ t, low ≤ t → t ≤ high →
      128 ≤ (b.toNat % Nat.pow 2 (7 - size) * 64 + t.toNat % 64) * Nat.pow 64 n := by
  unfold leads at h
  simp only [UInt8.lt_iff_toNat_lt, UInt8.le_iff_toNat_le, ← UInt8.toNat_inj,
    UInt8.reduceToNat] at h ⊢
  split_ifs at h <;> simp only [Option.some.injEq, Prod.mk.injEq] at h
  · exact .inl ⟨h.1.symm, by omega⟩
  all_goals
    obtain ⟨rfl, rfl, rfl⟩ := h
    refine .inr ⟨_, rfl, fun t hlow hhigh => ?_⟩
    simp only [UInt8.reduceToNat, Nat.reduceSub, Nat.pow_eq, Nat.reducePow] at hlow hhigh ⊢
    omega

theorem toNat_ofNat_of_isValidChar {n : Nat} (h : n.isValidChar) : (Char.ofNat n).toNat = n := by
  rw [Char.ofNat, dif_pos h]
  rfl

/-- A number that is no code point gives the null character. -/
theorem toNat_ofNat_of_pos {n : Nat} (h : 0 < (Char.ofNat n).toNat) :
    (Char.ofNat n).toNat = n := by
  by_cases hn : n.isValidChar
  · exact toNat_ofNat_of_isValidChar hn
  · rw [Char.ofNat, dif_neg hn] at h
    exact absurd h (by decide)

/-- A piece that is an ASCII character is the byte that it begins with. -/
theorem eq_of_firstPiece {b : UInt8} {rest : Bytes} {c : Char}
    (h : (firstPiece b rest).1 = .char c) (hpos : 0 < c.toNat) (hc : c.toNat < 128) :
    b = UInt8.ofNat c.toNat := by
  unfold firstPiece at h
  split at h
  · simp at h
  · next size low high hleads =>
      dsimp only at h
      split at h
      · next hsize =>
          rw [Piece.char.injEq] at h
          rcases leads_cases hleads with ⟨rfl, hb⟩ | ⟨n, rfl, hdigits⟩
          · have hnil : continuation 0 low high rest = [] :=
              List.length_eq_zero_iff.mp (by simpa using hsize)
            simp only [Nat.sub_self, hnil, List.foldl_nil, if_true] at h
            rw [← h] at hpos
            rw [← h, toNat_ofNat_of_pos hpos, UInt8.ofNat_toNat]
          · obtain ⟨t, tail, htail, hlow, hhigh, rfl⟩ := continuation_eq_cons (by simpa using hsize)
            have hlarge : 128 ≤ (continuation (tail.length + 2 - 1) low high rest).foldl
                (fun n c => n * 64 + c.toNat % 64)
                (b.toNat % Nat.pow 2 (7 - (tail.length + 2))) := by
              rw [Nat.add_succ_sub_one, htail, List.foldl_cons]
              exact Nat.le_trans (hdigits t hlow hhigh) (le_foldl_digits tail _)
            rw [if_neg (by omega)] at h
            rw [← h] at hpos hc
            rw [toNat_ofNat_of_pos hpos] at hc
            omega
      · simp at h

theorem mem_of_mem_piecesAfter {b : Bytes} {skip : Nat} {c : Char} (hpos : 0 < c.toNat)
    (hc : c.toNat < 128) (h : .char c ∈ piecesAfter skip b) : UInt8.ofNat c.toNat ∈ b := by
  induction b generalizing skip with
  | nil => simp [piecesAfter] at h
  | cons x b ih =>
      cases skip with
      | succ skip => exact List.mem_cons_of_mem _ (ih h)
      | zero =>
          rw [piecesAfter, List.mem_cons] at h
          rcases h with h | h
          · rw [← eq_of_firstPiece h.symm hpos hc]
            exact List.mem_cons_self
          · exact List.mem_cons_of_mem _ (ih h)

/-- An ASCII character in shown bytes was a byte. -/
theorem mem_of_mem_lossy {b : Bytes} {c : Char} (hpos : 0 < c.toNat) (hc : c.toNat < 128)
    (h : c ∈ (lossy b).toList) : UInt8.ofNat c.toNat ∈ b := by
  unfold lossy at h
  split at h
  · next s hs =>
      rw [← bytes_of_ofBytes? hs, mem_bytes_iff hc]
      exact h
  · rw [String.toList_ofList, List.mem_map] at h
    obtain ⟨piece, hpiece, hchar⟩ := h
    cases piece with
    | char d =>
        have hd : d = c := hchar
        exact mem_of_mem_piecesAfter hpos hc (hd ▸ hpiece)
    | invalid bytes =>
        have hreplaced : c.toNat = 0xFFFD := by rw [← hchar]; rfl
        omega

end TreeListing.Text
