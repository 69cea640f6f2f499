import TreeListing.Proofs.Batch.Schedule

/-!
# What a batch changes

Listing an input ends in one of four ways (`renderTo_cases`): nothing is listed, the
outputs directory cannot be made, the file cannot be written, or it is written.  So it
makes directories on the way to the outputs directory, writes the input's own file if it
ends well, and changes nothing else (`changes_renderTo`); and so does a batch, however it
is scheduled (`changes_of_mayEnd`).
-/

namespace TreeListing

namespace Disk

section RenderTo

variable {grammars : Grammars} {settings : Settings} {language : Option Language} {d : Disk}
  {input : Path}

/-- The ways in which listing an input into its file ends. -/
theorem renderTo_cases (grammars : Grammars) (settings : Settings) (language : Option Language)
    (d : Disk) (input : Path) :
    (∃ failure, d.listing grammars (settings.inputPath input) language = .error failure ∧
      d.renderTo grammars settings language input = (.error failure, d)) ∨
    ∃ found lines, d.listing grammars (settings.inputPath input) language = .ok (found, lines) ∧
      ((∃ cause made, d.makeOutputs settings = (some cause, made) ∧
        d.renderTo grammars settings language input =
          (.error (.write settings.outputs.trimmed cause), made)) ∨
      ∃ made, d.makeOutputs settings = (none, made) ∧
        ((∃ cause, made.write (settings.outputPath input) (Text.bytes (joinLines lines)) =
            .error cause ∧
          d.renderTo grammars settings language input =
            (.error (.write (settings.outputPath input) cause), made)) ∨
        ∃ written, made.write (settings.outputPath input) (Text.bytes (joinLines lines)) =
            .ok written ∧
          d.renderTo grammars settings language input =
            (.ok ⟨settings.inputPath input, found, settings.outputPath input, lines.length⟩,
              written))) := by
  rw [renderTo]
  cases d.listing grammars (settings.inputPath input) language with
  | error failure => exact .inl ⟨failure, rfl, rfl⟩
  | ok found =>
      refine .inr ⟨found.1, found.2, rfl, ?_⟩
      dsimp only
      rw [writeListing]
      rcases d.makeOutputs settings with ⟨_ | cause, made⟩
      · refine .inr ⟨made, rfl, ?_⟩
        dsimp only
        rw [saved]
        cases made.write (settings.outputPath input) (Text.bytes (joinLines found.2)) with
        | error cause => exact .inl ⟨cause, rfl, rfl⟩
        | ok written => exact .inr ⟨written, rfl, rfl⟩
      · exact .inl ⟨cause, made, rfl, rfl⟩

/-- An input that has been listed has been written, into the directory that has been made
for it. -/
theorem renderTo_ok {file : RenderedFile} {after : Disk}
    (h : d.renderTo grammars settings language input = (.ok file, after)) :
    ∃ lines made,
      d.listing grammars (settings.inputPath input) language = .ok (file.language, lines) ∧
      d.makeOutputs settings = (none, made) ∧
      made.write (settings.outputPath input) (Text.bytes (joinLines lines)) = .ok after ∧
      file.input = settings.inputPath input ∧ file.output = settings.outputPath input ∧
      file.lineCount = lines.length := by
  rcases renderTo_cases grammars settings language d input with
    ⟨failure, _, hend⟩ | ⟨found, lines, hlisting, ⟨cause, made, _, hend⟩ |
      ⟨made, hmade, ⟨cause, _, hend⟩ | ⟨written, hwritten, hend⟩⟩⟩
  all_goals rw [hend] at h; simp only [Prod.mk.injEq, reduceCtorEq, false_and] at h
  obtain ⟨hfile, rfl⟩ := h
  obtain rfl := Except.ok.inj hfile
  exact ⟨lines, made, hlisting, hmade, hwritten, rfl, rfl, rfl⟩

/-- Making the outputs directory makes directories on the way to it. -/
theorem changes_makeOutputs (hl : d.LinkFree) {fault : Option IoFault} {made : Disk}
    (h : d.makeOutputs settings = (fault, made)) :
    Changes (d.onWayTo settings.outputs) nowhere d made := by
  rw [makeOutputs] at h
  split at h
  · obtain ⟨-, rfl⟩ := Prod.mk.inj h
    exact .refl _ _ d
  · refine (changes_createDirectories hl h).mono (fun l hon => ?_) fun _ => id
    rwa [onWayTo, start, Settings.names_trimmed_outputs,
      Settings.isAbsolute_trimmed_outputs] at hon

/-- Listing an input makes directories on the way to the outputs directory and writes the
file of the input if it ends well. -/
theorem changes_renderTo (grammars : Grammars) (settings : Settings) (language : Option Language)
    (input : Path) (hl : d.LinkFree) :
    Changes (d.onWayTo settings.outputs)
      (fun l => (∃ file, (d.renderTo grammars settings language input).1 = .ok file) ∧
        l = d.target (settings.outputPath input))
      d (d.renderTo grammars settings language input).2 := by
  rcases renderTo_cases grammars settings language d input with
    ⟨failure, _, hend⟩ | ⟨found, lines, _, ⟨cause, made, hmade, hend⟩ |
      ⟨made, hmade, ⟨cause, _, hend⟩ | ⟨written, hwritten, hend⟩⟩⟩
  · rw [hend]
    exact .refl _ _ d
  · rw [hend]
    exact (changes_makeOutputs hl hmade).mono (fun _ => id) fun _ h => h.elim
  · rw [hend]
    exact (changes_makeOutputs hl hmade).mono (fun _ => id) fun _ h => h.elim
  · have hchanges := changes_makeOutputs hl hmade
    have hwrite := (changes_write (hchanges.linkFree hl) hwritten).1
    rw [hend]
    refine (hchanges.mono (fun _ => id) fun _ h => h.elim).trans
      (hwrite.mono (fun _ h => h.elim) fun l h => ⟨⟨_, rfl⟩, ?_⟩)
    rw [h, hchanges.target]

theorem start_outputPath (d : Disk) (settings : Settings) (input : Path) :
    d.start (settings.outputPath input) = d.start settings.outputs := by
  rw [start, start, Settings.isAbsolute_outputPath]

/-- Where a listing is written: in the outputs directory, under its own name. -/
theorem target_outputPath (d : Disk) (settings : Settings) (input : Path) :
    d.target (settings.outputPath input) =
      d.target settings.outputs ++ [Text.bytes (Settings.outputName input)] := by
  rw [target, target, start_outputPath, Settings.names_outputPath, along_append, along,
    if_neg (Settings.outputName_ne_up input), along]

/-- Listings have different paths only if they are written to different places. -/
theorem target_outputPath_inj {other : Path} :
    d.target (settings.outputPath input) = d.target (settings.outputPath other) ↔
      settings.outputPath input = settings.outputPath other := by
  rw [target_outputPath, target_outputPath, Settings.outputPath_inj, List.append_cancel_left_eq,
    List.cons.injEq, and_iff_left rfl]
  exact ⟨fun h => Text.bytes_injective h, congrArg _⟩

end RenderTo

/-! ## One after the other -/

section RenderAll

variable (grammars : Grammars) (settings : Settings) (language : Option Language) {d : Disk}

theorem renderAll_append (xs ys : List Path) :
    d.renderAll grammars settings language (xs ++ ys) =
      (d.renderAll grammars settings language xs).renderAll grammars settings language ys :=
  List.foldl_append

theorem renderAll_cons (x : Path) (xs : List Path) :
    d.renderAll grammars settings language (x :: xs) =
      ((d.renderTo grammars settings language x).2).renderAll grammars settings language xs :=
  rfl

/-- Inputs that are listed one after the other make directories on the way to the outputs
directory and write the files of those that end well. -/
theorem changes_renderAll (hl : d.LinkFree) (inputs : List Path) :
    Changes (d.onWayTo settings.outputs)
      (fun l => ∃ before input after file, inputs = before ++ input :: after ∧
        ((d.renderAll grammars settings language before).renderTo grammars settings language
          input).1 = .ok file ∧ l = d.target (settings.outputPath input))
      d (d.renderAll grammars settings language inputs) := by
  induction inputs using List.reverseRecOn with
  | nil => exact .refl _ _ d
  | append_singleton inputs input ih =>
      rw [renderAll_append]
      have hlast := changes_renderTo grammars settings language input (ih.linkFree hl)
      refine (ih.mono (fun _ => id) ?_).trans (hlast.mono ?_ ?_)
      · rintro l ⟨before, other, after, file, rfl, hfile, rfl⟩
        exact ⟨before, other, after ++ [input], file, by simp, hfile, rfl⟩
      · rintro l ⟨names, hnames, rfl⟩
        exact ⟨names, hnames, by rw [ih.start]⟩
      · rintro l ⟨⟨file, hfile⟩, rfl⟩
        exact ⟨inputs, input, [], file, rfl, hfile, ih.target _⟩

end RenderAll

end Disk

/-! ## Any schedule -/

namespace Batch

variable {grammars : Grammars} {settings : Settings} {language : Option Language}
  {inputs : List Path} {d : Disk}

/-- The result of a task is the result of an outcome. -/
theorem mem_outcomes {s : Progress inputs.length} {position : Fin inputs.length}
    {result : Except Failure RenderedFile} (h : s.result position = some result) :
    ⟨inputs.get position, result⟩ ∈ outcomes inputs s :=
  List.mem_filterMap.mpr ⟨position, List.mem_finRange position, by rw [h]; rfl⟩

/-- The tasks of a schedule make directories on the way to the outputs directory and write
the files of those that end well. -/
theorem changes_tasks (grammars : Grammars) (settings : Settings) (language : Option Language)
    (hl : d.LinkFree) (tasks : List (Task inputs.length)) :
    Disk.Changes (d.onWayTo settings.outputs)
      (fun l => ∃ before t after file, tasks = before ++ t :: after ∧
        ((d.renderAll grammars settings language (before.map fun t => t.input)).renderTo grammars
          settings language t.input).1 = .ok file ∧ l = d.target (settings.outputPath t.input))
      d (d.renderAll grammars settings language (tasks.map fun t => t.input)) := by
  refine (Disk.changes_renderAll grammars settings language hl _).mono (fun _ => id) ?_
  rintro l ⟨first, input, rest, file, hcut, hfile, hl⟩
  obtain ⟨before, more, rfl, rfl, hmore⟩ := List.map_eq_append_iff.mp hcut
  obtain ⟨t, after, rfl, rfl, rfl⟩ := List.map_eq_cons_iff.mp hmore
  exact ⟨before, t, after, file, rfl, hfile, hl⟩

/-- However a batch is scheduled, it makes directories on the way to the outputs directory
and writes the files that its outcomes report. -/
theorem changes_of_mayEnd (hl : d.LinkFree) {ends : List Outcome} {final : Disk}
    (h : MayEnd grammars settings language inputs d ends final) :
    Disk.Changes (d.onWayTo settings.outputs)
      (fun l => ∃ o ∈ ends, ∃ file, o.result = .ok file ∧ o.requested ∈ inputs ∧
        file.output = settings.outputPath o.requested ∧ l = d.target file.output)
      d final := by
  obtain ⟨tasks, hcomplete, rfl, rfl⟩ := h
  rw [disk_run settings language fun _ => .fresh]
  refine (changes_tasks grammars settings language hl tasks).mono (fun _ => id) ?_
  rintro l ⟨before, t, after, file, hcut, hfile, rfl⟩
  have hresult := result_of_complete grammars settings language (d := d) hcomplete hcut
  rw [hfile] at hresult
  obtain ⟨_, _, _, _, _, _, houtput, _⟩ := Disk.renderTo_ok (Prod.ext hfile rfl)
  exact ⟨_, mem_outcomes hresult, file, rfl, t.input_mem, houtput, by rw [houtput]⟩

/-- The inputs of the outcomes of a batch are the inputs of the batch, each with a listing at
the place of its own if it was listed. -/
theorem requested_of_mayEnd {ends : List Outcome} {final : Disk}
    (h : MayEnd grammars settings language inputs d ends final) :
    ends.map Outcome.requested = inputs ∧
      ∀ o ∈ ends, ∀ file, o.result = .ok file → file.output = settings.outputPath o.requested := by
  obtain ⟨tasks, hcomplete, rfl, rfl⟩ := h
  choose before hbefore using exists_result grammars settings language (d := d) hcomplete
  rw [outcomes_eq hbefore]
  refine ⟨?_, fun o ho file hfile => ?_⟩
  · rw [List.map_map]
    exact map_finRange inputs
  · obtain ⟨position, -, rfl⟩ := List.mem_map.mp ho
    obtain ⟨_, _, _, _, _, _, houtput, _⟩ := Disk.renderTo_ok (Prod.ext hfile rfl)
    exact houtput

end Batch

end TreeListing
