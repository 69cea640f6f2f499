import TreeListing.Language.Choice
import TreeListing.Proofs.Text.LowerCase

/-!
# Texts that a language goes by

A language goes by its names and by the extensions of its files, which may be given with their
dot, in any mix of upper-case and lower-case ASCII letters.  Written in lower case these texts
are `Language.texts`.  They are plain, so full lower-casing finds them from nothing else, however
often and on whichever side of the dot it is done, and no two languages share one of them.

`accepted_texts` says of every text which language it is accepted for, if any, and with what
failure it is rejected.
-/

namespace TreeListing.Language

open Text (EqUpToCase Plain)

/-! ## The texts of a language -/

/-- The extensions of a language's files without and with their dot. -/
def extensionTexts (l : Language) : List String :=
  l.extensions ++ l.extensions.map ("." ++ ·)

/-- The texts that a language goes by, in lower case. -/
def texts (l : Language) : List String :=
  l.names ++ l.extensionTexts

theorem plain_of_mem_texts {l : Language} {t : String} (h : t ∈ l.texts) : Plain t := by
  have hascii : ∀ t ∈ l.texts, t.toList.all (·.toNat < 128) = true := by
    cases l <;> decide
  have hlower : ∀ t ∈ l.texts, t.toList.map Char.toLower = t.toList := by
    cases l <;> decide
  have hk : ∀ t ∈ l.texts, 'k' ∉ t.toList := by
    cases l <;> decide
  exact ⟨by simpa using hascii t h, hlower t h, hk t h⟩

/-- No two languages go by the same text. -/
theorem eq_of_mem_texts {l l' : Language} {t : String} (h : t ∈ l.texts) (h' : t ∈ l'.texts) :
    l = l' := by
  revert t
  cases l <;> cases l' <;> decide

theorem mem_texts_of_mem_names {l : Language} {t : String} (h : t ∈ l.names) : t ∈ l.texts :=
  List.mem_append_left _ h

theorem mem_texts_of_mem_extensionTexts {l : Language} {t : String} (h : t ∈ l.extensionTexts) :
    t ∈ l.texts :=
  List.mem_append_right _ h

theorem mem_texts_of_mem_extensions {l : Language} {t : String} (h : t ∈ l.extensions) :
    t ∈ l.texts :=
  mem_texts_of_mem_extensionTexts (List.mem_append_left _ h)

/-- A text is one of the texts of at most one language, up to case. -/
theorem eq_of_eqUpToCase {l l' : Language} {s t t' : String} (ht : t ∈ l.texts)
    (ht' : t' ∈ l'.texts) (h : EqUpToCase s t) (h' : EqUpToCase s t') : l = l' := by
  obtain rfl : t = t' := (plain_of_mem_texts ht).eq (plain_of_mem_texts ht') h h'
  exact eq_of_mem_texts ht ht'

/-! ## Looking a text up -/

theorem mem_all (l : Language) : l ∈ all := by
  cases l <;> decide

/-- A text of a language is found with that language, as no other language has it. -/
theorem find?_all_eq_some_iff {list : Language → List String}
    (hlist : ∀ {l t}, t ∈ list l → t ∈ l.texts) {s : String} {l : Language} :
    (all.find? fun l => (list l).contains s) = some l ↔ s ∈ list l := by
  constructor
  · intro h
    simpa using List.find?_some h
  · intro h
    cases hfound : all.find? fun l => (list l).contains s with
    | none =>
        have hnot := List.find?_eq_none.mp hfound l (mem_all l)
        exact absurd h (by simpa using hnot)
    | some l' =>
        have h' : s ∈ list l' := by simpa using List.find?_some hfound
        rw [eq_of_mem_texts (hlist h) (hlist h')]

/-- Looking up the lower case of a text finds the language that has the text up to case. -/
theorem find?_lowerCase_eq_some_iff {list : Language → List String}
    (hlist : ∀ {l t}, t ∈ list l → t ∈ l.texts) {s : String} {l : Language} :
    (all.find? fun l => (list l).contains (Text.lowerCase s)) = some l ↔
      ∃ t ∈ list l, EqUpToCase s t := by
  rw [find?_all_eq_some_iff hlist]
  constructor
  · intro h
    exact ⟨_, h, (Text.lowerCase_eq_iff (plain_of_mem_texts (hlist h))).mp rfl⟩
  · rintro ⟨t, ht, hst⟩
    rwa [(Text.lowerCase_eq_iff (plain_of_mem_texts (hlist ht))).mpr hst]

/-! ## Extensions -/

/-- Being equal up to case without a leading dot is being equal up to case with or without one. -/
theorem eqUpToCase_withoutDot_iff {s e : String} (he : e.toList.head? ≠ some '.') :
    EqUpToCase (withoutDot s) e ↔ EqUpToCase s e ∨ EqUpToCase s ("." ++ e) := by
  have hhead : (e.toList.map Char.toLower).head? ≠ some '.' := by
    cases hchars : e.toList with
    | nil => simp
    | cons c rest => simpa [Text.toLower_eq_dot_iff, hchars] using he
  have hlower : ('.').toLower = '.' := rfl
  unfold withoutDot EqUpToCase
  split
  · next rest hs =>
      have hne : '.' :: rest.map Char.toLower ≠ e.toList.map Char.toLower := by
        intro h
        exact hhead (by rw [← h]; rfl)
      simp [hs, hlower, hne]
  · next hs =>
      have hne : s.toList.map Char.toLower ≠ '.' :: e.toList.map Char.toLower := by
        cases hchars : s.toList with
        | nil => simp
        | cons c rest =>
            have hc : c ≠ '.' := by
              rintro rfl
              exact hs rest hchars
            simp [Text.toLower_eq_dot_iff, hc]
      simp [hlower, hne]

/-- An extension is found up to case, with or without its dot. -/
theorem ofExtension?_eq_some_iff {s : String} {l : Language} :
    ofExtension? s = some l ↔ ∃ e ∈ l.extensions, EqUpToCase (withoutDot s) e :=
  find?_lowerCase_eq_some_iff mem_texts_of_mem_extensions

theorem head?_ne_of_mem_extensions {l : Language} {e : String} (h : e ∈ l.extensions) :
    e.toList.head? ≠ some '.' := by
  revert e
  cases l <;> decide

theorem ofExtension?_eq_some_iff_texts {s : String} {l : Language} :
    ofExtension? s = some l ↔ ∃ t ∈ l.extensionTexts, EqUpToCase s t := by
  rw [ofExtension?_eq_some_iff]
  constructor
  · rintro ⟨e, he, h⟩
    rcases (eqUpToCase_withoutDot_iff (head?_ne_of_mem_extensions he)).mp h with h | h
    · exact ⟨e, List.mem_append_left _ he, h⟩
    · exact ⟨"." ++ e, List.mem_append_right _ (List.mem_map_of_mem he), h⟩
  · rintro ⟨t, ht, h⟩
    rcases List.mem_append.mp ht with he | ht
    · exact ⟨t, he, (eqUpToCase_withoutDot_iff (head?_ne_of_mem_extensions he)).mpr (.inl h)⟩
    · obtain ⟨e, he, rfl⟩ := List.mem_map.mp ht
      exact ⟨e, he, (eqUpToCase_withoutDot_iff (head?_ne_of_mem_extensions he)).mpr (.inr h)⟩

/-- Lower-casing before the dot is taken off changes nothing. -/
theorem ofExtension?_lowerCase (s : String) :
    ofExtension? (Text.lowerCase s) = ofExtension? s := by
  ext l
  rw [ofExtension?_eq_some_iff_texts, ofExtension?_eq_some_iff_texts]
  refine exists_congr fun t => and_congr_right fun ht => ?_
  have hplain := plain_of_mem_texts (mem_texts_of_mem_extensionTexts ht)
  exact Text.eqUpToCase_lowerCase_iff hplain

/-! ## All texts -/

/-- A language goes by a text: up to case it is a name of the language or, once the dot that it
may begin with is taken off, an extension. -/
def GoesBy (l : Language) (s : String) : Prop :=
  (∃ e ∈ l.extensions, EqUpToCase (withoutDot s) e) ∨ ∃ n ∈ l.names, EqUpToCase s n

instance (l : Language) (s : String) : Decidable (l.GoesBy s) :=
  inferInstanceAs (Decidable (_ ∨ _))

theorem goesBy_iff {l : Language} {s : String} :
    l.GoesBy s ↔ ∃ t ∈ l.texts, EqUpToCase s t := by
  unfold GoesBy
  rw [← ofExtension?_eq_some_iff, ofExtension?_eq_some_iff_texts]
  simp only [texts, List.mem_append, or_and_right, exists_or]
  exact or_comm

/-- A text goes for at most one language. -/
theorem GoesBy.unique {l l' : Language} {s : String} (h : l.GoesBy s) (h' : l'.GoesBy s) :
    l = l' := by
  obtain ⟨t, ht, hst⟩ := goesBy_iff.mp h
  obtain ⟨t', ht', hst'⟩ := goesBy_iff.mp h'
  exact eq_of_eqUpToCase ht ht' hst hst'

/-- What a language goes by is ASCII. -/
theorem GoesBy.ascii {l : Language} {s : String} (h : l.GoesBy s) :
    ∀ c ∈ s.toList, c.toNat < 128 := by
  obtain ⟨t, ht, hst⟩ := goesBy_iff.mp h
  exact (plain_of_mem_texts ht).ascii_of_eqUpToCase hst

theorem ofName?_eq_some_iff {s : String} {l : Language} : ofName? s = some l ↔ l.GoesBy s := by
  unfold ofName?
  dsimp only
  -- the extension is looked up in the lowered text, which makes no difference
  rw [ofExtension?_lowerCase, Option.orElse_eq_orElse, Option.orElse_eq_or]
  cases hname : all.find? fun l => l.names.contains (Text.lowerCase s) with
  | none =>
      have hnone : ¬ ∃ n ∈ l.names, EqUpToCase s n := by
        rw [← find?_lowerCase_eq_some_iff mem_texts_of_mem_names, hname]
        simp
      rw [Option.none_or, ofExtension?_eq_some_iff]
      exact (or_iff_left hnone).symm
  | some l' =>
      have hname' : l'.GoesBy s :=
        .inr ((find?_lowerCase_eq_some_iff mem_texts_of_mem_names).mp hname)
      rw [Option.some_or, Option.some.injEq]
      constructor
      · rintro rfl
        exact hname'
      · exact hname'.unique

theorem ofName_eq_ok_iff {s : String} {l : Language} : ofName s = .ok l ↔ l.GoesBy s := by
  rw [← ofName?_eq_some_iff]
  unfold ofName
  cases ofName? s <;> simp

/-- A text that no language goes by is rejected, and the failure holds it as it was given. -/
theorem ofName_eq_error_iff {s : String} {failure : Failure} :
    ofName s = .error failure ↔
      (∀ l : Language, ¬ l.GoesBy s) ∧ failure = .unsupportedLanguage s := by
  simp only [← ofName?_eq_some_iff]
  unfold ofName
  cases ofName? s <;> simp [eq_comm]

end TreeListing.Language
