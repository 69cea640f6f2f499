import TreeListing.Proofs.Batch.Frame

/-!
# Which listings a batch keeps

The name of a listing is all that is kept of the path of its input, so two inputs may have
the same one.  Both are reported as written then, but there is one file for the two, so a
batch need not keep what it reports (`not_renderBatch_keeps_all`).  A listing whose file is
that of no other listing is kept, however the batch is scheduled (`renderBatch_keeps`).
-/

namespace TreeListing.Batch

open Disk

/-- What has been read and written to list an input is there later, as long as neither file
is written again. -/
theorem kept_of_renderTo {grammars : Grammars} {settings : Settings} {language : Option Language}
    {d after final : Disk} {input : Path} {file : RenderedFile} (hl : d.LinkFree)
    (h : d.renderTo grammars settings language input = (.ok file, after))
    {directories files : Location → Prop} (hafter : Changes directories files after final)
    (hsource : ∀ content, final.get? (d.target file.input) = some (.file content) ↔
      d.get? (d.target file.input) = some (.file content))
    (hdump : ¬ files (d.target file.output)) :
    ∃ source lines, d.get? (d.target file.input) = some (.file (Text.bytes source)) ∧
      final.content? file.input = some (Text.bytes source) ∧
      listingOf grammars source file.language = .ok lines ∧
      final.content? file.output = some (Text.bytes (joinLines lines)) ∧
      file.lineCount = lines.length := by
  obtain ⟨lines, made, hlisting, hmade, hwritten, hinput, houtput, hcount⟩ := renderTo_ok h
  obtain ⟨source, hcontent, -, hlines⟩ := listing_ok hlisting
  rw [← hinput] at hcontent
  rw [← houtput] at hwritten
  have hmaking := changes_makeOutputs hl hmade
  obtain ⟨hwriting, hthere⟩ := changes_write (hmaking.linkFree hl) hwritten
  have hlater := hwriting.somewhere.trans hafter.somewhere
  have hread := get?_of_content? hl hcontent
  refine ⟨source, lines, hread, ?_, hlines, ?_, hcount⟩
  · exact content?_of_content? hl (hmaking.somewhere.trans hlater) ((hsource _).mpr hread) hcontent
  · refine content?_of_write (hmaking.linkFree hl) hlater ?_ hwritten
    rw [hmaking.target] at hthere ⊢
    exact (hafter.file_iff hdump _).mpr hthere

section Kept

variable (grammars : Grammars) (settings : Settings) (language : Option Language)
  {inputs : List Path} {d : Disk}

/-- The tasks after one write the listings that they end well with, and no other file. -/
theorem changes_after (hl : d.LinkFree) {tasks before after : List (Task inputs.length)}
    {t : Task inputs.length} (hc : Complete tasks) (hcut : tasks = before ++ t :: after) :
    Changes (d.onWayTo settings.outputs)
      (fun l => ∃ later ∈ after, (∃ file, (run grammars settings language inputs { disk := d }
          tasks).result later.position = some (.ok file)) ∧
        l = d.target (settings.outputPath later.input))
      (run grammars settings language inputs { disk := d } (before ++ [t])).disk
      (run grammars settings language inputs { disk := d } tasks).disk := by
  have hfresh : ∀ worker : Nat, ((fun _ => {} : Nat → SourceParser) worker).Follows grammars :=
    fun _ => .fresh
  have hbefore := changes_tasks grammars settings language hl (before ++ [t])
  have hafter := changes_tasks grammars settings language (hbefore.linkFree hl) after
  rw [← renderAll_append, ← List.map_append, List.append_assoc, List.singleton_append, ← hcut]
    at hafter
  rw [disk_run settings language hfresh, disk_run settings language hfresh]
  refine hafter.mono ?_ ?_
  · rintro l ⟨names, hnames, rfl⟩
    exact ⟨names, hnames, by rw [hbefore.start]⟩
  · rintro l ⟨done, later, rest, file, rfl, hfile, rfl⟩
    have hlater : tasks = (before ++ t :: done) ++ later :: rest := by simp [hcut]
    refine ⟨later, by simp, ⟨file, ?_⟩, hbefore.target _⟩
    rw [result_of_complete grammars settings language hc hlater, ← hfile, ← renderAll_append,
      ← List.map_append, List.append_assoc, List.singleton_append]

/-- The files of a listed input are the ones that the settings say. -/
theorem paths_of_result {tasks : List (Task inputs.length)} (hc : Complete tasks)
    {position : Fin inputs.length} {file : RenderedFile}
    (h : (run grammars settings language inputs { disk := d } tasks).result position =
      some (.ok file)) :
    file.input = settings.inputPath (inputs.get position) ∧
      file.output = settings.outputPath (inputs.get position) := by
  obtain ⟨before, hresult⟩ := exists_result grammars settings language (d := d) hc position
  rw [hresult, Option.some.injEq] at h
  obtain ⟨_, _, _, _, _, hinput, houtput, _⟩ := renderTo_ok (Prod.ext h rfl)
  exact ⟨hinput, houtput⟩

/-- The outcomes of a complete schedule are its results, at the positions of the inputs. -/
theorem getElem?_outcomes_of_complete {tasks : List (Task inputs.length)} (hc : Complete tasks)
    {i : Nat} {o : Outcome} :
    (outcomes inputs (run grammars settings language inputs { disk := d } tasks))[i]? = some o ↔
      ∃ position : Fin inputs.length, position.val = i ∧ inputs.get position = o.requested ∧
        (run grammars settings language inputs { disk := d } tasks).result position =
          some o.result := by
  choose before hresult using exists_result grammars settings language (d := d) hc
  rw [outcomes_eq hresult, List.getElem?_map, Option.map_eq_some_iff]
  constructor
  · rintro ⟨position, hposition, rfl⟩
    obtain ⟨hi, rfl⟩ := List.getElem?_eq_some_iff.mp hposition
    exact ⟨_, by simp, rfl, hresult _⟩
  · rintro ⟨position, rfl, hrequested, hposition⟩
    rw [hresult, Option.some.injEq] at hposition
    exact ⟨position, by simp, by rw [hposition, hrequested]⟩

/-- A file that lies where no listing of the inputs goes stays as it is. -/
theorem file_renderAll_iff (hl : d.LinkFree) {l : Location}
    (hapart : ∀ other ∈ inputs, l ≠ d.target (settings.outputPath other))
    (tasks : List (Task inputs.length)) (content : Bytes) :
    (d.renderAll grammars settings language (tasks.map fun t => t.input)).get? l =
        some (.file content) ↔
      d.get? l = some (.file content) := by
  refine (changes_tasks grammars settings language hl tasks).file_iff ?_ content
  rintro ⟨_, other, _, _, _, _, hsame⟩
  exact hapart _ other.input_mem hsame

/-- A listing whose file is that of no other listing of the schedule is kept. -/
theorem kept_of_alone (hl : d.LinkFree)
    (hapart : ∀ input ∈ inputs, ∀ other ∈ inputs,
      d.target (settings.inputPath input) ≠ d.target (settings.outputPath other))
    {tasks : List (Task inputs.length)} (hc : Complete tasks) :
    let final := run grammars settings language inputs { disk := d } tasks
    ∀ position file, final.result position = some (.ok file) →
      (∀ other ≠ position, ∀ another, final.result other = some (.ok another) →
        another.output ≠ file.output) →
      file.input = settings.inputPath (inputs.get position) ∧
      file.output = settings.outputPath (inputs.get position) ∧
      ∃ source lines,
        d.get? (d.target file.input) = some (.file (Text.bytes source)) ∧
        final.disk.content? file.input = some (Text.bytes source) ∧
        listingOf grammars source file.language = .ok lines ∧
        final.disk.content? file.output = some (Text.bytes (joinLines lines)) ∧
        file.lineCount = lines.length := by
  intro final position file hfile halone
  obtain ⟨before, t, after, hcut, rfl⟩ := hc.exists_cut position
  obtain ⟨hinput, houtput⟩ := paths_of_result grammars settings language hc hfile
  have hsource := file_renderAll_iff grammars settings language hl
    (hapart (inputs.get t.position) t.input_mem)
  rw [← hinput] at hsource
  have hbefore := changes_tasks grammars settings language hl before
  have hafter := changes_after grammars settings language hl hc hcut
  have hresult := hfile
  rw [disk_run settings language fun _ => .fresh, List.map_append, renderAll_append] at hafter
  rw [result_of_complete grammars settings language hc hcut, Option.some.injEq] at hresult
  have hheld : ∀ content, final.disk.get? (d.target file.input) = some (.file content) ↔
      (d.renderAll grammars settings language (before.map fun t => t.input)).get?
        (d.target file.input) = some (.file content) := by
    intro content
    rw [hsource before, disk_run settings language fun _ => .fresh, hsource tasks]
  -- A later task that ends well is that of another listing, which goes elsewhere.
  have hdump : ¬ ∃ later ∈ after, (∃ another, final.result later.position = some (.ok another)) ∧
      d.target file.output = d.target (settings.outputPath later.input) := by
    rintro ⟨later, hmem, ⟨another, hanother⟩, hsame⟩
    rw [houtput, target_outputPath_inj] at hsame
    have hne : later.position ≠ t.position := fun hposition =>
      hc.notMem_after hcut (hposition ▸ List.mem_map_of_mem hmem)
    refine halone later.position hne another hanother ?_
    exact (paths_of_result grammars settings language hc hanother).2.trans
      (houtput.trans hsame).symm
  rw [← hbefore.target file.input] at hheld
  rw [← hbefore.target file.output] at hdump
  obtain ⟨source, lines, hthere, hread, hlines, hkept, hcount⟩ :=
    kept_of_renderTo (hbefore.linkFree hl) (Prod.ext hresult rfl) hafter hheld hdump
  rw [hbefore.target] at hthere
  exact ⟨hinput, houtput, source, lines, (hsource before _).mp hthere, hread, hlines, hkept,
    hcount⟩

/-- However a batch is scheduled, a listing whose file is that of no other listing is kept: at
the end its file holds the lines, with a line feed between any two and none after the last, of
the source text that the input has held all the time. -/
theorem renderBatch_keeps (hl : d.LinkFree)
    (hapart : ∀ input ∈ inputs, ∀ other ∈ inputs,
      d.target (settings.inputPath input) ≠ d.target (settings.outputPath other)) :
    (∃ ends after,
      (Work.renderBatch grammars settings inputs language).runIn { disk := d } =
        (.ok ends, after) ∧
      MayEnd grammars settings language inputs d ends after.disk) ∧
    ∀ ends final, MayEnd grammars settings language inputs d ends final →
      ends.map Outcome.requested = inputs ∧
      ∀ (i : Nat) o file, ends[i]? = some o → o.result = .ok file →
      (∀ j ≠ i, ∀ other another, ends[j]? = some other → other.result = .ok another →
        another.output ≠ file.output) →
      file.input = settings.inputPath o.requested ∧
      file.output = settings.outputPath o.requested ∧
      ∃ source lines,
        d.get? (d.target file.input) = some (.file (Text.bytes source)) ∧
        final.readText file.input = .ok source ∧
        ((Work.render grammars source file.language).runIn {}).1 = .ok lines ∧
        final.read file.output = .ok (Text.bytes ("\n".intercalate lines)) ∧
        file.lineCount = lines.length := by
  constructor
  · obtain ⟨parser, log, -, hrun⟩ :=
      ends_renderBatch grammars settings language d inputs {} #[] .fresh
    exact ⟨_, _, hrun, mayEnd_renderBatch grammars settings language d inputs⟩
  · intro ends final hends
    refine ⟨(requested_of_mayEnd hends).1, ?_⟩
    obtain ⟨tasks, hc, rfl, rfl⟩ := hends
    intro i o file ho hfile halone
    obtain ⟨position, rfl, hrequested, hresult⟩ :=
      (getElem?_outcomes_of_complete grammars settings language hc).mp ho
    rw [hfile] at hresult
    obtain ⟨hinput, houtput, source, lines, hthere, hread, hlines, hkept, hcount⟩ :=
      kept_of_alone grammars settings language hl hapart hc position file hresult
        fun other hne another hanother =>
          halone other (Fin.val_ne_of_ne hne) ⟨inputs.get other, .ok another⟩ another
            ((getElem?_outcomes_of_complete grammars settings language hc).mpr
              ⟨other, rfl, rfl, hanother⟩) rfl
    rw [← hrequested]
    refine ⟨hinput, houtput, source, lines, hthere, ?_, ?_, read_of_content? hkept, hcount⟩
    · rw [readText_of_content? hread, Text.ofBytes?_bytes]
    · obtain ⟨_, _, _, hrun⟩ :=
        Work.ends_render grammars {} source file.language {} #[] .fresh
      rw [← hlines]
      exact congrArg Prod.fst hrun

end Kept

/-- The first listing of a small batch is kept when the second one is made. -/
theorem renderBatch_keeps_sample :
    ∃ ends final,
      MayEnd (fun _ => .ok leafGrammar) .default none sampleInputs sampleDisk ends final ∧
      ∃ o file, ends[1]? = some o ∧ o.requested = Path.ofText "b.swift" ∧ o.result = .ok file ∧
        file.output = Path.ofText "outputs/b_tree.txt" ∧ file.lineCount = 1 ∧
        final.read file.output = .ok (Text.bytes "b [0, 0] - [0, 1]") := by
  have hends : MayEnd (fun _ => .ok leafGrammar) .default none sampleInputs sampleDisk
      (outcomes sampleInputs sampleEnd) sampleEnd.disk :=
    ⟨sampleTasks, complete_sampleTasks, rfl, rfl⟩
  have hat {i : Nat} {o : Outcome} : (outcomes sampleInputs sampleEnd)[i]? = some o ↔ _ :=
    getElem?_outcomes_of_complete (fun _ => .ok leafGrammar) .default none complete_sampleTasks
  have hfile : sampleEnd.result ⟨1, by decide⟩ = some (.ok ⟨Path.ofText "inputs/b.swift", .swift,
      Path.ofText "outputs/b_tree.txt", 1⟩) := by
    decide +kernel
  have hother : sampleEnd.result ⟨0, by decide⟩ = some (.ok ⟨Path.ofText "inputs/a.js",
      .javascript, Path.ofText "outputs/a_tree.txt", 1⟩) := by
    decide +kernel
  have ho : (outcomes sampleInputs sampleEnd)[1]? = some ⟨Path.ofText "b.swift", .ok _⟩ :=
    hat.mpr ⟨⟨1, by decide⟩, rfl, rfl, hfile⟩
  obtain ⟨-, -, source, lines, hthere, -, hlines, hkept, -⟩ :=
    ((renderBatch_keeps (fun _ => .ok leafGrammar) .default none linkFree_sampleDisk
      (by decide +kernel)).2 _ _ hends).2 1 _ _ ho rfl
      (by
        intro j hj other another hj' hanother
        obtain ⟨⟨j, hlt⟩, rfl, -, hresult⟩ := hat.mp hj'
        obtain rfl : j = 0 := Nat.lt_one_iff.mp (lt_of_le_of_ne (Nat.le_of_lt_succ hlt) hj)
        change sampleEnd.result ⟨0, by decide⟩ = _ at hresult
        rw [hother, hanother] at hresult
        rw [← Except.ok.inj (Option.some.inj hresult)]
        decide)
  have hsource : sampleDisk.get? (sampleDisk.target (Path.ofText "inputs/b.swift")) =
      some (.file (Text.bytes "b")) := by
    decide +kernel
  obtain rfl : "b" = source := by
    refine Text.bytes_injective ?_
    exact Entry.file.inj (Option.some.inj (hsource.symm.trans hthere))
  have hlisted : ((Work.render (fun _ => .ok leafGrammar) "b" .swift).runIn {}).1 =
      .ok ["b [0, 0] - [0, 1]"] := by
    decide +kernel
  obtain rfl : ["b [0, 0] - [0, 1]"] = lines := Except.ok.inj (hlisted.symm.trans hlines)
  exact ⟨_, _, hends, _, _, ho, rfl, rfl, rfl, rfl, hkept⟩

/-! ## Two inputs of one name -/

/-- A disk with two source files whose names differ in their extensions. -/
def twinDisk : Disk where
  entries :=
    [([Text.bytes "inputs"], .directory),
      ([Text.bytes "inputs", Text.bytes "x.js"], .file (Text.bytes "a")),
      ([Text.bytes "inputs", Text.bytes "x.swift"], .file (Text.bytes "b"))]

/-- The two source files. -/
def twinInputs : List Path :=
  [Path.ofText "x.js", Path.ofText "x.swift"]

/-- A batch of different inputs that do not lie where listings go need not keep all the
listings that it reports as written. -/
theorem not_renderBatch_keeps_all :
    ¬ ∀ (grammars : Grammars) (settings : Settings) (language : Option Language)
        (inputs : List Path) (d : Disk), d.LinkFree → d.WellFormed →
      (inputs.map fun input => d.target (settings.inputPath input)).Nodup →
      (∀ input ∈ inputs, ∀ other ∈ inputs,
        d.target (settings.inputPath input) ≠ d.target (settings.outputPath other)) →
      ∀ ends after,
        (Work.renderBatch grammars settings inputs language).runIn { disk := d } =
          (.ok ends, after) →
        ∀ o ∈ ends, ∀ file, o.result = .ok file →
          ∃ source lines, after.disk.readText file.input = .ok source ∧
            ((Work.render grammars source file.language).runIn {}).1 = .ok lines ∧
            after.disk.read file.output = .ok (Text.bytes (joinLines lines)) ∧
            file.lineCount = lines.length := by
  intro h
  obtain ⟨parser, log, _, hrun⟩ :=
    ends_renderBatch (fun _ => .ok leafGrammar) .default none twinDisk twinInputs {} #[] .fresh
  have hfirst : (twinDisk.renderTo (fun _ => .ok leafGrammar) .default none
      (Path.ofText "x.js")).1 = .ok ⟨Path.ofText "inputs/x.js", .javascript,
        Path.ofText "outputs/x_tree.txt", 1⟩ := by
    decide +kernel
  obtain ⟨source, lines, hsource, hlines, hdump, -⟩ := h _ .default none twinInputs twinDisk
    (linkFree_of_entries (by decide)) (wellFormed_of_entries (by decide) (by decide))
    (by decide +kernel) (by decide +kernel) _ _ hrun _ List.mem_cons_self _ hfirst
  have hread : (twinDisk.renderAll (fun _ => .ok leafGrammar) .default none twinInputs).readText
      (Path.ofText "inputs/x.js") = .ok "a" := by
    decide +kernel
  have hend : (twinDisk.renderAll (fun _ => .ok leafGrammar) .default none twinInputs).read
      (Path.ofText "outputs/x_tree.txt") = .ok (Text.bytes "b [0, 0] - [0, 1]") := by
    decide +kernel
  have hlisted : ((Work.render (fun _ => .ok leafGrammar) "a" .javascript).runIn {}).1 =
      .ok ["a [0, 0] - [0, 1]"] := by
    decide +kernel
  -- the first listing is reported as written, but the second one stands in its file
  obtain rfl : "a" = source := Except.ok.inj (hread.symm.trans hsource)
  obtain rfl : ["a [0, 0] - [0, 1]"] = lines := Except.ok.inj (hlisted.symm.trans hlines)
  exact absurd (Except.ok.inj (hend.symm.trans hdump)) (by decide)

end TreeListing.Batch
