import TreeListing.Proofs.Text.Ascii
import TreeListing.Text.LowerCase

/-!
# Lower case and ASCII letters

Lower-casing a text replaces its ASCII letters as `Char.toLower` does (`lowerAfter_of_ascii`).
Beyond ASCII the case table takes over, and it leads back into ASCII in one place only: the
Kelvin sign becomes a `k`.  A capital I with a dot above keeps its dot as a second character, and
every other character stays beyond ASCII (`lowerChar_of_le`).  So a lower-case ASCII text without
a `k` is the lower case of just the texts that differ from it in the case of ASCII letters
(`lowerCase_eq_iff`), and lower-casing before such a comparison changes nothing
(`eqUpToCase_lowerCase_iff`).
-/

namespace TreeListing.Text

/-! ## The case table -/

/-- A run of the table that lies beyond ASCII and stays there, without leaving the range of
characters, or that is the Kelvin sign. -/
def CaseRun.Foreign (r : CaseRun) : Prop :=
  128 ≤ r.first ∧
    (r = ⟨0x212A, 0x212A, 1, -8383⟩ ∨
      (128 ≤ r.first + r.shift ∧ r.last + r.shift < 0xD800) ∨
      (0xDFFF < r.first + r.shift ∧ r.last + r.shift < 0x110000))

instance (r : CaseRun) : Decidable r.Foreign :=
  inferInstanceAs (Decidable (_ ∧ _))

/-- The capital ASCII letters. -/
def capitals : CaseRun :=
  ⟨0x41, 0x5A, 1, 32⟩

/-- The capital ASCII letters are one run, and all the other runs are foreign. -/
theorem lowerRuns_eq : ∃ runs, lowerRuns = capitals :: runs ∧ ∀ r ∈ runs, r.Foreign :=
  ⟨lowerRuns.tail, rfl, by decide +kernel⟩

theorem CaseRun.holds_iff {r : CaseRun} {n : Nat} :
    r.holds n = true ↔ r.first ≤ n ∧ n ≤ r.last ∧ (n - r.first) % r.step = 0 := by
  simp [CaseRun.holds, and_assoc]

/-- What a foreign run maps to is beyond ASCII, or a `k`. -/
theorem CaseRun.Foreign.le_toNat_or_eq {r : CaseRun} (hr : r.Foreign) {n : Nat}
    (hn : r.holds n = true) :
    128 ≤ (Char.ofNat (n + r.shift).toNat).toNat ∨ Char.ofNat (n + r.shift).toNat = 'k' := by
  obtain ⟨hfirst, hlast, _⟩ := holds_iff.mp hn
  obtain ⟨_, rfl | ⟨hlow, hhigh⟩ | ⟨hlow, hhigh⟩⟩ := hr
  -- off the range of characters `Char.ofNat` would give the null character, which is ASCII
  · obtain rfl : n = 0x212A := Nat.le_antisymm hlast hfirst
    exact .inr (by decide)
  · have hvalid : (n + r.shift).toNat.isValidChar := .inl (by omega)
    rw [toNat_ofNat_of_isValidChar hvalid]
    exact .inl (by omega)
  · have hvalid : (n + r.shift).toNat.isValidChar := .inr ⟨by omega, by omega⟩
    rw [toNat_ofNat_of_isValidChar hvalid]
    exact .inl (by omega)

/-! ## Characters -/

/-- On ASCII the case table is what the library's function for ASCII letters says. -/
theorem lowerChar_of_ascii {c : Char} (hc : c.toNat < 128) : lowerChar c = [c.toLower] := by
  have hletters : ∀ n < 128, (Char.ofNat n).toLower =
      if capitals.holds n then Char.ofNat (n + capitals.shift).toNat else Char.ofNat n := by
    decide
  have hlower := hletters c.toNat hc
  obtain ⟨runs, hruns, hforeign⟩ := lowerRuns_eq
  have hnone : runs.find? (·.holds c.toNat) = none := by
    rw [List.find?_eq_none]
    intro r hr hholds
    have := (hforeign r hr).1
    have := (CaseRun.holds_iff.mp hholds).1
    omega
  have hdotted : c ≠ Char.ofNat 0x130 := by
    rintro rfl
    exact absurd hc (by decide)
  rw [lowerChar, if_neg hdotted, hruns, List.find?_cons, hnone]
  rw [Char.ofNat_toNat] at hlower
  cases hholds : capitals.holds c.toNat with
  | true => simpa [hholds] using hlower.symm
  | false => simpa [hholds] using hlower.symm

/-- The lower case of a character beyond ASCII holds another such character, or it is a `k`. -/
theorem lowerChar_of_le {c : Char} (hc : 128 ≤ c.toNat) :
    ∃ d ∈ lowerChar c, 128 ≤ d.toNat ∨ d = 'k' := by
  unfold lowerChar
  split
  · exact ⟨Char.ofNat 0x307, by simp, .inl (by decide)⟩
  · cases hrun : lowerRuns.find? (·.holds c.toNat) with
    | none => exact ⟨c, by simp, .inl hc⟩
    | some run =>
        refine ⟨_, List.mem_singleton_self _, ?_⟩
        have hholds : run.holds c.toNat = true := by simpa using List.find?_some hrun
        obtain ⟨runs, hruns, hforeign⟩ := lowerRuns_eq
        have hmem := List.mem_of_find?_eq_some hrun
        rw [hruns, List.mem_cons] at hmem
        rcases hmem with rfl | hmem
        · have hlast : c.toNat ≤ 0x5A := (CaseRun.holds_iff.mp hholds).2.1
          omega
        · exact (hforeign run hmem).le_toNat_or_eq hholds

/-- A character beyond ASCII is no capital ASCII letter. -/
theorem toLower_of_le {c : Char} (hc : 128 ≤ c.toNat) : c.toLower = c := by
  have hval : c.val.toNat = c.toNat := rfl
  unfold Char.toLower
  rw [dif_neg]
  rintro ⟨_, hcapital⟩
  have := UInt32.le_iff_toNat_le.mp hcapital
  simp only [hval] at this
  have hz : 'Z'.val.toNat = 90 := rfl
  omega

/-- A lowered ASCII letter is lower-case. -/
theorem toLower_toLower (c : Char) : c.toLower.toLower = c.toLower := by
  rcases Nat.lt_or_ge c.toNat 128 with hc | hc
  · have htable : ∀ n < 128, (Char.ofNat n).toLower.toLower = (Char.ofNat n).toLower := by
      decide
    have hlower := htable c.toNat hc
    rwa [Char.ofNat_toNat] at hlower
  · rw [toLower_of_le hc, toLower_of_le hc]

/-- Only a dot is lowered to a dot. -/
theorem toLower_eq_dot_iff {c : Char} : c.toLower = '.' ↔ c = '.' := by
  constructor
  · intro h
    rcases Nat.lt_or_ge c.toNat 128 with hc | hc
    · have htable : ∀ n < 128, (Char.ofNat n).toLower = '.' → Char.ofNat n = '.' := by decide
      simpa [h] using htable c.toNat hc
    · rwa [toLower_of_le hc] at h
  · rintro rfl
    rfl

/-! ## Texts -/

/-- The lower case of ASCII characters does not depend on what is before them. -/
theorem lowerAfter_of_ascii {cs : List Char} (hcs : ∀ c ∈ cs, c.toNat < 128)
    (before : List Char) : lowerAfter before cs = cs.map Char.toLower := by
  induction cs generalizing before with
  | nil => rfl
  | cons c cs ih =>
      have hc : c.toNat < 128 := hcs c List.mem_cons_self
      have hsigma : c ≠ 'Σ' := by
        rintro rfl
        exact absurd hc (by decide)
      rw [lowerAfter, if_neg hsigma, lowerChar_of_ascii hc,
        ih fun d hd => hcs d (List.mem_cons_of_mem _ hd)]
      rfl

/-- Characters beyond ASCII leave a trace in the lower case. -/
theorem exists_mem_lowerAfter {cs : List Char} {c : Char} (hmem : c ∈ cs) (hc : 128 ≤ c.toNat)
    (before : List Char) : ∃ d ∈ lowerAfter before cs, 128 ≤ d.toNat ∨ d = 'k' := by
  induction cs generalizing before with
  | nil => simp at hmem
  | cons x cs ih =>
      rw [lowerAfter]
      rcases List.mem_cons.mp hmem with rfl | hmem
      · split
        · refine ⟨_, List.mem_cons_self, .inl ?_⟩
          split <;> decide
        · obtain ⟨d, hd, hforeign⟩ := lowerChar_of_le hc
          exact ⟨d, List.mem_append_left _ hd, hforeign⟩
      · obtain ⟨d, hd, hforeign⟩ := ih hmem (x :: before)
        split
        · exact ⟨d, List.mem_cons_of_mem _ hd, hforeign⟩
        · exact ⟨d, List.mem_append_right _ hd, hforeign⟩

/-- Texts that differ at most in the case of ASCII letters. -/
def EqUpToCase (s t : String) : Prop :=
  s.toList.map Char.toLower = t.toList.map Char.toLower

instance (s t : String) : Decidable (EqUpToCase s t) :=
  inferInstanceAs (Decidable (_ = _))

/-- A lower-case ASCII text that nothing but ASCII letters can be lowered to. -/
structure Plain (t : String) : Prop where
  ascii : ∀ c ∈ t.toList, c.toNat < 128
  lower : t.toList.map Char.toLower = t.toList
  without_k : 'k' ∉ t.toList

section Plain

variable {s t : String}

/-- Plain texts that differ at most in case are the same. -/
theorem Plain.eq {u : String} (ht : Plain t) (hu : Plain u) (hst : EqUpToCase s t)
    (hsu : EqUpToCase s u) : t = u := by
  have h : t.toList = u.toList := by
    rw [← ht.lower, ← hu.lower]
    exact hst.symm.trans hsu
  exact String.toList_inj.mp h

/-- A text that is plain but for the case of its letters is ASCII. -/
theorem Plain.ascii_of_eqUpToCase (ht : Plain t) (h : EqUpToCase s t) :
    ∀ c ∈ s.toList, c.toNat < 128 := by
  intro c hc
  refine Nat.lt_of_not_le fun hle => ?_
  have hmem : c ∈ t.toList := by
    rw [← ht.lower, ← h, List.mem_map]
    exact ⟨c, hc, toLower_of_le hle⟩
  have := ht.ascii c hmem
  omega

/-- A text whose lower case is plain is ASCII. -/
theorem Plain.ascii_of_lowerCase (ht : Plain t) (h : EqUpToCase (lowerCase s) t) :
    ∀ c ∈ s.toList, c.toNat < 128 := by
  intro c hc
  refine Nat.lt_of_not_le fun hle => ?_
  obtain ⟨d, hd, htrace⟩ := exists_mem_lowerAfter hc hle []
  have hlower : d ∈ (lowerCase s).toList := by rwa [lowerCase, String.toList_ofList]
  rcases htrace with hlarge | rfl
  · have := ht.ascii_of_eqUpToCase h d hlower
    omega
  · apply ht.without_k
    rw [← ht.lower, ← h, List.mem_map]
    exact ⟨'k', hlower, rfl⟩

theorem toList_lowerCase_of_ascii (hs : ∀ c ∈ s.toList, c.toNat < 128) :
    (lowerCase s).toList = s.toList.map Char.toLower := by
  rw [lowerCase, String.toList_ofList, lowerAfter_of_ascii hs]

/-- Lower-casing a text does not change which plain texts it is up to case. -/
theorem eqUpToCase_lowerCase_iff (ht : Plain t) : EqUpToCase (lowerCase s) t ↔ EqUpToCase s t := by
  have hsame (hs : ∀ c ∈ s.toList, c.toNat < 128) :
      EqUpToCase (lowerCase s) t ↔ EqUpToCase s t := by
    unfold EqUpToCase
    rw [toList_lowerCase_of_ascii hs, List.map_map]
    have htwice : Char.toLower ∘ Char.toLower = Char.toLower := funext toLower_toLower
    rw [htwice]
  exact ⟨fun h => (hsame (ht.ascii_of_lowerCase h)).mp h,
    fun h => (hsame (ht.ascii_of_eqUpToCase h)).mpr h⟩

/-- A plain text is the lower case of the texts that differ from it in case only. -/
theorem lowerCase_eq_iff (ht : Plain t) : lowerCase s = t ↔ EqUpToCase s t := by
  constructor
  · rintro rfl
    exact (eqUpToCase_lowerCase_iff ht).mp rfl
  · intro h
    apply String.toList_inj.mp
    rw [toList_lowerCase_of_ascii (ht.ascii_of_eqUpToCase h), h, ht.lower]

end Plain

end TreeListing.Text
