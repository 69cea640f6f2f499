import TreeListing.Proofs.Path.Parent
import TreeListing.Proofs.Text.Ascii
import TreeListing.Settings.Basic

/-!
# Where listings go

The name of a listing is one name: it holds no separator, since neither the stem of an
input nor what is shown in place of its bytes can hold one, and its suffix keeps it from
being inert or the parent's name.  So a listing stands directly in the outputs directory
(`names_outputPath`), whatever the input is, and that directory is its parent
(`parent?_outputPath`).  `outputPath_inside` puts this together, and says which inputs share a
listing.
-/

namespace TreeListing

namespace Settings

/-! ## The name of a listing -/

/-- The stem that a listing is named after: that of its input, or nothing if the input has no
name. -/
def stem (input : Path) : Bytes :=
  input.stem?.getD []

theorem outputName_eq (input : Path) :
    outputName input = Text.lossy (stem input) ++ outputSuffix := by
  rw [outputName, stem]
  cases input.stem? <;> rfl

/-- Inputs whose stems are texts share the name of their listing if they share the stem. -/
theorem outputName_inj {i j : Path} {s t : String} (hi : stem i = Text.bytes s)
    (hj : stem j = Text.bytes t) : outputName i = outputName j ↔ stem i = stem j := by
  rw [outputName_eq, outputName_eq, hi, hj, Text.lossy_bytes, Text.lossy_bytes]
  constructor
  · intro h
    have hbytes := congrArg Text.bytes h
    rw [Text.bytes_append, Text.bytes_append] at hbytes
    exact List.append_cancel_right hbytes
  · intro h
    rw [Text.bytes_injective h]

theorem slash_notMem_stem (input : Path) : Path.slash ∉ stem input := by
  rw [stem]
  cases hstem : input.stem? with
  | none => simp
  | some stem => exact Path.slash_notMem_of_stem? hstem

theorem slash_notMem_outputName (input : Path) : Path.slash ∉ Text.bytes (outputName input) := by
  have hslash : Path.slash = UInt8.ofNat '/'.toNat := by decide
  have hascii : '/'.toNat < 128 := by decide
  rw [hslash, Text.mem_bytes_iff hascii, outputName_eq, String.toList_append, List.mem_append,
    not_or]
  refine ⟨fun hmem => ?_, by decide⟩
  exact slash_notMem_stem input (hslash ▸ Text.mem_of_mem_lossy (by decide) hascii hmem)

/-- The suffix alone has nine bytes. -/
theorem length_outputName (input : Path) : 9 ≤ (Text.bytes (outputName input)).length := by
  have hsuffix : (Text.bytes outputSuffix).length = 9 := by decide
  rw [outputName, Text.bytes_append, List.length_append, hsuffix]
  exact Nat.le_add_left 9 _

theorem inert_outputName (input : Path) : Path.inert (Text.bytes (outputName input)) = false := by
  have hlength := length_outputName input
  cases h : Text.bytes (outputName input) with
  | nil => simp [h] at hlength
  | cons b rest =>
      cases rest with
      | nil => simp [h] at hlength
      | cons c rest => simp [Path.inert]

theorem outputName_ne_up (input : Path) : Text.bytes (outputName input) ≠ Path.up := by
  intro h
  have hlength := length_outputName input
  rw [h] at hlength
  simp [Path.up] at hlength

/-- No listing has the name of its input: the stem of its own name is longer than the stem that
it is made of. -/
theorem outputName_ne {input : Path} {name : Bytes} (h : input.name? = some name) :
    Text.bytes (outputName input) ≠ name := by
  intro hsame
  obtain ⟨stem, hstem⟩ : ∃ stem, input.stem? = some stem := by
    rw [Path.stem?, h]
    exact ⟨_, rfl⟩
  have hdot : Path.dot ∉ Text.bytes "txt" := by decide
  have hsuffix : outputSuffix = "_tree" ++ ("." ++ "txt") := rfl
  have hbytes : name = Text.bytes (Text.lossy stem ++ "_tree") ++
      Path.dot :: Text.bytes "txt" := by
    have htail : Text.bytes ("." ++ "txt") = Path.dot :: Text.bytes "txt" := by decide
    rw [← hsame, outputName, hstem, Option.map_some, Option.getD_some, hsuffix,
      ← String.append_assoc, Text.bytes_append, htail]
  have hlonger : stem = Text.bytes (Text.lossy stem ++ "_tree") := by
    have hnonempty : (Text.bytes (Text.lossy stem ++ "_tree")).isEmpty = false := by
      rw [Text.bytes_append]
      have hlength : (Text.bytes "_tree").length = 5 := by decide
      rw [List.isEmpty_eq_false_iff]
      intro hnil
      simp [(List.append_eq_nil_iff.mp hnil).2] at hlength
    rw [Path.stem?, h, Option.map_some, hbytes, Path.splitLastDot_append _ hdot] at hstem
    dsimp only at hstem
    rw [hnonempty, if_neg Bool.false_ne_true] at hstem
    exact (Option.some.inj hstem).symm
  have hlossy := congrArg Text.lossy hlonger
  rw [Text.lossy_bytes] at hlossy
  have hlength := congrArg String.length hlossy
  have hfive : "_tree".length = 5 := by decide
  rw [String.length_append] at hlength
  omega

/-! ## The place of a listing -/

/-- The listing of an input is asked for by its name in the outputs directory. -/
theorem names_outputPath (s : Settings) (input : Path) :
    (s.outputPath input).names = s.outputs.names ++ [Text.bytes (outputName input)] := by
  have hslash := slash_notMem_outputName input
  rw [outputPath, Path.ofText, Path.names_join, Path.isAbsolute_of_name hslash,
    if_neg (by simp), Path.names, Path.names, Path.split_of_not_mem hslash,
    Path.named_cons_of_not_inert (inert_outputName input), Path.named_nil]

theorem hasName_outputPath (s : Settings) (input : Path) :
    (s.outputPath input).HasName (Text.bytes (outputName input)) := by
  rw [← Path.name?_eq_some_iff, Path.name?_eq, names_outputPath]
  simp [outputName_ne_up]

theorem bytes_outputPath (s : Settings) (input : Path) :
    (s.outputPath input).bytes =
      s.outputs.bytes ++ s.outputs.gap ++ Text.bytes (outputName input) := by
  rw [outputPath, Path.ofText,
    Path.join_of_relative (Path.isAbsolute_of_name (slash_notMem_outputName input))]

theorem lead_outputPath (s : Settings) (input : Path) :
    (s.outputPath input).lead = s.outputs.lead :=
  Path.lead_join (slash_notMem_outputName input) (inert_outputName input) s.outputs

theorem isAbsolute_outputPath (s : Settings) (input : Path) :
    (s.outputPath input).isAbsolute = s.outputs.isAbsolute := by
  rw [outputPath, Path.ofText, Path.isAbsolute_join,
    Path.isAbsolute_of_name (slash_notMem_outputName input), Bool.or_false]

/-- Every listing has the same parent. -/
theorem parent?_outputPath (s : Settings) (input : Path) :
    (s.outputPath input).parent? = some s.outputs.trimmed :=
  Path.parent?_join (slash_notMem_outputName input) (inert_outputName input) s.outputs

theorem names_trimmed_outputs (s : Settings) : s.outputs.trimmed.names = s.outputs.names := by
  rw [Path.names_of_parent? (parent?_outputPath s ⟨[]⟩), names_outputPath,
    List.dropLast_concat]

theorem isAbsolute_trimmed_outputs (s : Settings) :
    s.outputs.trimmed.isAbsolute = s.outputs.isAbsolute := by
  rw [Path.isAbsolute_of_parent? (parent?_outputPath s ⟨[]⟩), isAbsolute_outputPath]

/-- Two listings have the same path only if they have the same name. -/
theorem outputPath_inj {s : Settings} {i j : Path} :
    s.outputPath i = s.outputPath j ↔ outputName i = outputName j := by
  constructor
  · intro h
    have hnames := congrArg Path.names h
    rw [names_outputPath, names_outputPath, List.append_cancel_left_eq, List.cons.injEq] at hnames
    exact Text.bytes_injective hnames.1
  · intro h
    rw [outputPath, outputPath, h]

/-- Whatever the input is, its listing goes into the outputs directory itself: the path of the
listing is that of the directory with one more name, which is no way up or out, and the directory
is its parent but for separators and single dots at its end.  Inputs whose stems are texts share a
listing just when they share the stem. -/
theorem outputPath_inside (s : Settings) (input : Path) :
    let name := Text.bytes (outputName input)
    let path := s.outputPath input
    (Text.ofBytes? name = some (outputName input) ∧ Path.slash ∉ name ∧ name ≠ [] ∧
      name ≠ [Path.dot] ∧ name ≠ Path.up ∧ Text.bytes outputSuffix <:+ name) ∧
    (path.bytes = s.outputs.bytes ++ s.outputs.gap ++ name ∧ path.lead = s.outputs.lead ∧
      path.names = s.outputs.names ++ [name]) ∧
    path.HasName name ∧
    (∃ parent, path.parent? = some parent ∧ s.outputs.Trails parent) ∧
    ∀ other, (∃ t, stem input = Text.bytes t) → (∃ t, stem other = Text.bytes t) →
      (path = s.outputPath other ↔ stem input = stem other) := by
  intro name path
  have hname : path.HasName name := hasName_outputPath s input
  have hsuffix : Text.bytes outputSuffix <:+ name :=
    ⟨Text.bytes (Text.lossy (stem input)), by rw [← Text.bytes_append, ← outputName_eq]⟩
  refine ⟨⟨Text.ofBytes?_bytes _, hname.slash_notMem, hname.ne_nil, hname.ne_dot, hname.ne_up,
    hsuffix⟩, ⟨bytes_outputPath s input, lead_outputPath s input, names_outputPath s input⟩,
    hname, ⟨_, parent?_outputPath s input, s.outputs.trails_trimmed⟩, ?_⟩
  rintro other ⟨t, ht⟩ ⟨u, hu⟩
  rw [outputPath_inj, outputName_inj ht hu]

/-- A way up has no stem and stays inside; two inputs in other places share the stem and the
listing. -/
theorem outputPath_inside_sample :
    let s : Settings := ⟨Path.ofText "in", Path.ofText "out/./"⟩
    (∃ parent, (s.outputPath (Path.ofText "../..")).parent? = some parent ∧
      s.outputs.Trails parent) ∧
    s.outputPath (Path.ofText "/etc/main.rs") = s.outputPath (Path.ofText "b/main.js/.") := by
  intro s
  have hstem : stem (Path.ofText "/etc/main.rs") = Text.bytes "main" := by decide +kernel
  have hstem' : stem (Path.ofText "b/main.js/.") = Text.bytes "main" := by decide +kernel
  exact ⟨(outputPath_inside s (Path.ofText "../..")).2.2.2.1,
    ((outputPath_inside s (Path.ofText "/etc/main.rs")).2.2.2.2 _ ⟨_, hstem⟩ ⟨_, hstem'⟩).mpr
      (hstem.trans hstem'.symm)⟩

end Settings

end TreeListing
