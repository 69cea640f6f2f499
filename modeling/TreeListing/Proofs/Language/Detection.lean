import TreeListing.Proofs.Language.Texts
import TreeListing.Proofs.Path.LastName
import TreeListing.Proofs.Text.Ascii
import TreeListing.Settings.Basic

/-!
# The language of a file

A path tells the language by the name that it ends in: what is behind the last dot of that name,
if there is something before the dot, has to be an extension of the language up to case
(`ofPath?_eq_some_iff`).  Where the file lies has no part in it.  So an input that has a name is
detected as it was given, and its listing is named after it, whatever directory inputs are looked
up in (`detected_by_name`).
-/

namespace TreeListing.Language

open Text (EqUpToCase)

theorem ofExtension?_empty : ofExtension? "" = none := by
  rw [Option.eq_none_iff_forall_ne_some]
  intro l h
  have hnone : ¬ ∃ e ∈ l.extensions, EqUpToCase (withoutDot "") e := by
    cases l <;> decide
  exact hnone (ofExtension?_eq_some_iff.mp h)

/-- A text without a dot does not begin with one. -/
theorem withoutDot_of_notMem {t : String} (h : '.' ∉ t.toList) : withoutDot t = t := by
  unfold withoutDot
  split
  · next rest ht => simp [ht] at h
  · rfl

theorem ofPath?_of_extension? {p : Path} {t : String}
    (h : p.extension? = some (Text.bytes t)) : ofPath? p = ofExtension? t := by
  simp [ofPath?, extensionText, h]

/-- The language of a path whose extension is that of a language is that language. -/
theorem ofPath?_eq_some_iff_extension? {p : Path} {l : Language} :
    ofPath? p = some l ↔
      ∃ t, p.extension? = some (Text.bytes t) ∧ ofExtension? t = some l := by
  constructor
  · intro h
    obtain ⟨t, ht⟩ : ∃ t, p.extension?.bind Text.ofBytes? = some t := by
      rw [← Option.isSome_iff_exists, Option.isSome_iff_ne_none]
      intro hnone
      simp [ofPath?, extensionText, hnone, ofExtension?_empty] at h
    obtain ⟨extension, hextension, hdecoded⟩ := Option.bind_eq_some_iff.mp ht
    obtain rfl : Text.bytes t = extension := Text.bytes_of_ofBytes? hdecoded
    exact ⟨t, hextension, ofPath?_of_extension? hextension ▸ h⟩
  · rintro ⟨t, hextension, h⟩
    exact (ofPath?_of_extension? hextension).trans h

/-- The language of a path is the one that has the extension of its name, up to case. -/
theorem ofPath?_eq_some_iff {p : Path} {l : Language} :
    ofPath? p = some l ↔ ∃ stem extension, p.HasName (stem ++ Path.dot :: extension) ∧
      stem ≠ [] ∧ Path.dot ∉ extension ∧
      ∃ e ∈ l.extensions, ∃ t, extension = Text.bytes t ∧ EqUpToCase t e := by
  have hundotted {t : String} (h : Path.dot ∉ Text.bytes t) :
      ofExtension? t = some l ↔ ∃ e ∈ l.extensions, EqUpToCase t e := by
    have hbyte : Path.dot = UInt8.ofNat '.'.toNat := rfl
    rw [hbyte, Text.mem_bytes_iff (by decide)] at h
    rw [ofExtension?_eq_some_iff, withoutDot_of_notMem h]
  rw [ofPath?_eq_some_iff_extension?]
  constructor
  · rintro ⟨t, hextension, h⟩
    obtain ⟨stem, hname, hstem, hdot⟩ := Path.extension?_eq_some_iff.mp hextension
    obtain ⟨e, he, hte⟩ := (hundotted hdot).mp h
    exact ⟨stem, _, hname, hstem, hdot, e, he, t, rfl, hte⟩
  · rintro ⟨stem, extension, hname, hstem, hdot, e, he, t, rfl, hte⟩
    exact ⟨t, Path.extension?_eq_some_iff.mpr ⟨stem, hname, hstem, hdot⟩,
      (hundotted hdot).mpr ⟨e, he, hte⟩⟩

theorem ofPath_eq_ok_iff {p : Path} {l : Language} : ofPath p = .ok l ↔ ofPath? p = some l := by
  unfold ofPath
  cases ofPath? p <;> simp

/-- The language of a path depends on its name only. -/
theorem ofPath?_of_name?_eq {p q : Path} (h : p.name? = q.name?) : ofPath? p = ofPath? q := by
  have hextension : p.extension? = q.extension? := by
    unfold Path.extension?
    rw [h]
  simp only [ofPath?, extensionText, hextension]

/-- A path is of a language just when the name that it ends in is split at its last dot into a
stem, which is not empty, and an extension of that language up to case.  An input with a name is
of the same language in every directory that inputs are looked up in, and so is the name of its
listing. -/
theorem detected_by_name :
    (∀ (p : Path) (l : Language), ofPath p = .ok l ↔
      ∃ stem extension, p.HasName (stem ++ Path.dot :: extension) ∧ stem ≠ [] ∧
        Path.dot ∉ extension ∧
        ∃ e ∈ l.extensions, ∃ t, extension = Text.bytes t ∧ EqUpToCase t e) ∧
    ∀ (s : Settings) (input : Path) (name : Bytes), input.HasName name →
      (∀ l, ofPath (s.inputPath input) = .ok l ↔ ofPath input = .ok l) ∧
      Settings.outputName (s.inputPath input) = Settings.outputName input := by
  refine ⟨fun p l => ofPath_eq_ok_iff.trans ofPath?_eq_some_iff, fun s input name h => ?_⟩
  have hname : (s.inputPath input).name? = input.name? := by
    rw [Path.name?_eq_some_iff.mpr h]
    exact Path.name?_join (Path.name?_eq_some_iff.mpr h) s.inputs
  constructor
  · intro l
    rw [ofPath_eq_ok_iff, ofPath_eq_ok_iff, ofPath?_of_name?_eq hname]
  · have hstem : (s.inputPath input).stem? = input.stem? := by
      unfold Path.stem?
      rw [hname]
    simp only [Settings.outputName, hstem]

/-- A name with two dots and capitals, in directories with dots and with separators behind it. -/
theorem detected_by_name_sample :
    let s : Settings := ⟨Path.ofText "/in.rs/", Path.ofText "out"⟩
    let input := Path.ofText "a.swift/Main.test.MJS/./"
    input.HasName (Text.bytes "Main.test.MJS") ∧
      ofPath (s.inputPath input) = .ok javascript ∧
      Settings.outputName (s.inputPath input) = "Main.test_tree.txt" := by
  intro s input
  have hname : input.HasName (Text.bytes "Main.test.MJS") :=
    Path.name?_eq_some_iff.mp (by decide +kernel)
  obtain ⟨hlanguage, houtput⟩ := detected_by_name.2 s input _ hname
  have hcut : Text.bytes "Main.test.MJS" =
      Text.bytes "Main.test" ++ Path.dot :: Text.bytes "MJS" := by
    decide +kernel
  refine ⟨hname, (hlanguage javascript).mpr ((detected_by_name.1 input javascript).mpr
    ⟨_, _, hcut ▸ hname, ?_, ?_, "mjs", ?_, "MJS", rfl, ?_⟩), ?_⟩
  · decide +kernel
  · decide +kernel
  · decide +kernel
  · decide +kernel
  · rw [houtput]
    decide +kernel

/-- An input without a name takes that of the directory. -/
example : ofPath? ((⟨Path.ofText "lib.rs", Path.ofText "out"⟩ : Settings).inputPath
    (Path.ofText "./")) = some rust ∧ ofPath? (Path.ofText "./") = none := by
  decide +kernel

end TreeListing.Language
