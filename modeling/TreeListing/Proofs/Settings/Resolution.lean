import TreeListing.Proofs.Settings.Output

/-!
# Resolving settings

Settings are resolved by joining both directories on to a base, so what is known of joining holds
of resolving: bases act on settings one after the other as their join does at once
(`resolvedAgainst_join`), an absolute base settles them for good
(`resolvedAgainst_of_isAbsolute`), and what is given from an absolute base stays as it is while the
rest is resolved (`withOverrides_resolvedAgainst`).
-/

namespace TreeListing.Settings

/-- Settings with absolute directories. -/
structure Absolute (s : Settings) : Prop where
  inputs : s.inputs.isAbsolute = true
  outputs : s.outputs.isAbsolute = true

/-- Resolving twice is resolving once, from the joined bases. -/
theorem resolvedAgainst_join (s : Settings) (b c : Path) :
    (s.resolvedAgainst b).resolvedAgainst c = s.resolvedAgainst (c.join b) := by
  simp only [resolvedAgainst, Path.join_assoc]

theorem absolute_resolvedAgainst (s : Settings) {b : Path} (hb : b.isAbsolute = true) :
    (s.resolvedAgainst b).Absolute := by
  constructor <;> simp [resolvedAgainst, Path.isAbsolute_join, hb]

namespace Absolute

variable {s : Settings} (hs : s.Absolute)

include hs

/-- Absolute directories are not resolved any further. -/
theorem resolvedAgainst_eq (c : Path) : s.resolvedAgainst c = s := by
  simp only [resolvedAgainst, Path.join_of_isAbsolute hs.inputs,
    Path.join_of_isAbsolute hs.outputs]

theorem isAbsolute_inputPath (input : Path) : (s.inputPath input).isAbsolute = true := by
  rw [inputPath, Path.isAbsolute_join, hs.inputs, Bool.true_or]

theorem isAbsolute_outputPath (input : Path) : (s.outputPath input).isAbsolute = true :=
  (Settings.isAbsolute_outputPath s input).trans hs.outputs

end Absolute

/-- A directory that is given from an absolute base, or else is resolved, is the same when it is
resolved as a whole. -/
theorem join_getD_map_join {b : Path} (hb : b.isAbsolute = true) (c d : Path)
    (given : Option Path) :
    c.join ((given.map b.join).getD d) = (given.map b.join).getD (c.join d) := by
  cases given with
  | none => rfl
  | some path =>
      have habsolute : (b.join path).isAbsolute = true := by simp [Path.isAbsolute_join, hb]
      exact Path.join_of_isAbsolute habsolute c

/-- Overrides from an absolute base and resolving can be done in either order. -/
theorem withOverrides_resolvedAgainst (s : Settings) {b : Path} (hb : b.isAbsolute = true)
    (c : Path) (inputs outputs : Option Path) :
    (s.withOverrides b inputs outputs).resolvedAgainst c =
      (s.resolvedAgainst c).withOverrides b inputs outputs := by
  simp only [withOverrides, resolvedAgainst, join_getD_map_join hb]

/-- Resolving is an action of the bases, byte for byte: one base after the other is their join.
After an absolute base no other changes anything, and the paths of all inputs and listings are
absolute.  Overrides from an absolute base commute with it. -/
theorem resolution_laws (s : Settings) (b c : Path) :
    (s.resolvedAgainst b).resolvedAgainst c = s.resolvedAgainst (c.join b) ∧
    (b.isAbsolute = true →
      (s.resolvedAgainst b).resolvedAgainst c = s.resolvedAgainst b ∧
      (∀ input, ((s.resolvedAgainst b).inputPath input).isAbsolute = true ∧
        ((s.resolvedAgainst b).outputPath input).isAbsolute = true) ∧
      ∀ inputs outputs, (s.withOverrides b inputs outputs).resolvedAgainst c =
        (s.resolvedAgainst c).withOverrides b inputs outputs) := by
  refine ⟨resolvedAgainst_join s b c, fun hb => ?_⟩
  have hs : (s.resolvedAgainst b).Absolute := absolute_resolvedAgainst s hb
  exact ⟨hs.resolvedAgainst_eq c,
    fun input => ⟨hs.isAbsolute_inputPath input, hs.isAbsolute_outputPath input⟩,
    withOverrides_resolvedAgainst s hb c⟩

/-- An empty directory, a base that ends in a separator, and an override that is left as it is
when the rest is resolved. -/
theorem resolution_laws_sample :
    let s : Settings := ⟨Path.ofText "", Path.ofText "out"⟩
    let base := Path.ofText "/base/"
    let given := Path.ofText "dumps/."
    base.isAbsolute = true ∧
      (s.resolvedAgainst base).resolvedAgainst (Path.ofText "other") =
        ⟨Path.ofText "/base/", Path.ofText "/base/out"⟩ ∧
      (s.withOverrides base none (some given)).resolvedAgainst (Path.ofText "other") =
        ⟨Path.ofText "other/", Path.ofText "/base/dumps/."⟩ := by
  intro s base given
  have hbase : base.isAbsolute = true := by decide +kernel
  obtain ⟨hsettled, -, hoverrides⟩ := (resolution_laws s base (Path.ofText "other")).2 hbase
  refine ⟨hbase, hsettled.trans ?_, (hoverrides none (some given)).trans ?_⟩
  · decide +kernel
  · decide +kernel

end TreeListing.Settings
