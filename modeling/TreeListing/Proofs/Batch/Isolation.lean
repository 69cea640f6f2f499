import TreeListing.Proofs.Batch.Frame

/-!
# The inputs of a batch do not meet

Where no path leads up, the listings go to different places and no input lies where a
listing goes, an input of a batch is listed as if it were alone on the disk from the
beginning.  What a batch may share is the outputs directory: the first input that gets to
it makes it, and the others find it made, or fail to make it in the same way.

`Stage` says what a disk is after some of the inputs: it is still the disk from the
beginning, or `Opened`, where the outputs directory has been made as far as possible and
just the listings that can be written are there.  `Stage.renderTo` is the step, and the
order has no part in what a stage is (`Stage.same`).
-/

namespace TreeListing.Disk

section Stages

variable (grammars : Grammars) (settings : Settings) (language : Option Language) (d : Disk)

/-- From the disk `d`, listing an input alone ends well and writes this content. -/
def Writes (input : Path) (content : Bytes) : Prop :=
  ∃ found lines file,
    d.listing grammars (settings.inputPath input) language = .ok (found, lines) ∧
      (d.renderTo grammars settings language input).1 = .ok file ∧
      content = Text.bytes (joinLines lines)

/-- The outputs directory has been made, as far as that is possible from the disk `d`, and
then the listings of these inputs have been written, as far as possible. -/
structure Opened (inputs : List Path) (now : Disk) : Prop where
  wellFormed : now.WellFormed
  changes : Changes nowhere
    (fun l => ∃ input ∈ inputs, (∃ content, d.Writes grammars settings language input content) ∧
      l = d.target (settings.outputPath input))
    (d.makeOutputs settings).2 now
  written : ∀ input ∈ inputs, ∀ content, d.Writes grammars settings language input content →
    now.get? (d.target (settings.outputPath input)) = some (.file content)

/-- What has become of the disk `d` when these inputs have been listed. -/
def Stage (inputs : List Path) (now : Disk) : Prop :=
  (∀ input ∈ inputs, ∃ failure,
      d.listing grammars (settings.inputPath input) language = .error failure) ∧ Same d now ∨
    (∃ input ∈ inputs, ∃ found,
      d.listing grammars (settings.inputPath input) language = .ok found) ∧
    d.Opened grammars settings language inputs now

end Stages

variable {grammars : Grammars} {settings : Settings} {language : Option Language} {d now : Disk}
  {inputs : List Path}

/-! ## The outputs directory -/

theorem plain_trimmed (h : Path.up ∉ settings.outputs.names) : Plain settings.outputs.trimmed where
  endsInName := endsInName_trimmed _
  notMem_up := by rwa [Settings.names_trimmed_outputs]

theorem WellFormed.makeOutputs (hd : d.WellFormed) (hl : d.LinkFree) {fault : Option IoFault}
    {made : Disk} (h : d.makeOutputs settings = (fault, made)) : made.WellFormed := by
  rw [Disk.makeOutputs] at h
  split at h
  · obtain ⟨-, rfl⟩ := Prod.mk.inj h
    exact hd
  · exact hd.createDirectories hl h

/-- Once the outputs directory has been made, the directories on the way to it are there. -/
theorem row_of_makeOutputs (hl : d.LinkFree) (hd : d.WellFormed)
    (hup : Path.up ∉ settings.outputs.names) {made : Disk}
    (h : d.makeOutputs settings = (none, made)) :
    made.Row (made.start settings.outputs) settings.outputs.names := by
  rw [makeOutputs] at h
  rw [← Settings.names_trimmed_outputs, start, ← Settings.isAbsolute_trimmed_outputs, ← start]
  split at h
  · next hempty =>
      rw [List.isEmpty_iff] at hempty
      have hnames : settings.outputs.trimmed.names = [] := by rw [Path.names, hempty]; rfl
      rw [hnames]
      trivial
  · exact row_of_createDirectories hl hd (plain_trimmed hup) h

/-- Making the outputs directory again ends in the same way and changes nothing. -/
theorem makeOutputs_again (hl : d.LinkFree) (hd : d.WellFormed)
    (hup : Path.up ∉ settings.outputs.names) {fault : Option IoFault} {made : Disk}
    (h : d.makeOutputs settings = (fault, made)) : made.makeOutputs settings = (fault, made) := by
  rw [makeOutputs] at h ⊢
  split at h
  · next hempty =>
      rw [if_pos hempty, ← (Prod.mk.inj h).1]
  · next hempty =>
      rw [if_neg hempty]
      exact createDirectories_again hl hd (plain_trimmed hup) h

theorem makeOutputs_congr {d' : Disk} (hl : d.LinkFree) (hd : d.WellFormed)
    (hup : Path.up ∉ settings.outputs.names) (h : Same d d') :
    (d'.makeOutputs settings).1 = (d.makeOutputs settings).1 ∧
      Same (d.makeOutputs settings).2 (d'.makeOutputs settings).2 := by
  rw [makeOutputs, makeOutputs]
  split
  · exact ⟨rfl, h⟩
  · exact createDirectories_congr hl hd (plain_trimmed hup) h

/-! ## Stages -/

theorem Writes.made {input : Path} {content : Bytes}
    (h : d.Writes grammars settings language input content) :
    (d.makeOutputs settings).1 = none := by
  obtain ⟨_, _, file, _, hfile, _⟩ := h
  obtain ⟨_, made, _, hmade, _⟩ := renderTo_ok (Prod.ext hfile rfl)
  rw [hmade]

/-- No input can be written where the outputs directory cannot be made. -/
theorem Opened.same (h : d.Opened grammars settings language inputs now) {cause : IoFault}
    (hcause : (d.makeOutputs settings).1 = some cause) : Same (d.makeOutputs settings).2 now where
  workingDirectory := h.changes.workingDirectory
  entry l := by
    rcases h.changes.entry l with hsame | ⟨hnowhere, _⟩ | ⟨⟨_, _, ⟨_, hwrites⟩, _⟩, _⟩
    · exact hsame
    · exact hnowhere.elim
    · simp [hwrites.made] at hcause

theorem Opened.linkFree (hl : d.LinkFree) (h : d.Opened grammars settings language inputs now) :
    now.LinkFree :=
  h.changes.linkFree ((changes_makeOutputs hl rfl).linkFree hl)

/-- From the beginning to a stage, directories have been made on the way to the outputs
directory and listings have been written. -/
theorem Stage.changes (hl : d.LinkFree) (h : d.Stage grammars settings language inputs now) :
    Changes (d.onWayTo settings.outputs)
      (fun l => ∃ input ∈ inputs, l = d.target (settings.outputPath input)) d now := by
  rcases h with ⟨_, hsame⟩ | ⟨_, hopened⟩
  · exact hsame.changes _ _
  · refine ((changes_makeOutputs hl rfl).mono (fun _ => id) fun _ h => h.elim).trans
      (hopened.changes.mono (fun _ h => h.elim) ?_)
    rintro l ⟨input, hmem, _, hinput⟩
    exact ⟨input, hmem, hinput⟩

theorem Stage.wellFormed (hd : d.WellFormed) (h : d.Stage grammars settings language inputs now) :
    now.WellFormed := by
  rcases h with ⟨_, hsame⟩ | ⟨_, hopened⟩
  · exact hsame.wellFormed hd
  · exact hopened.wellFormed

/-- An input that lies at no listing of the stage is read as from the beginning. -/
theorem Stage.listing_eq (hl : d.LinkFree) (hd : d.WellFormed)
    (h : d.Stage grammars settings language inputs now) {path : Path} (hup : Path.up ∉ path.names)
    (hapart : ∀ input ∈ inputs, d.target path ≠ d.target (settings.outputPath input)) :
    now.listing grammars path language = d.listing grammars path language := by
  have hchanges := h.changes hl
  have hcontent : now.content? path = d.content? path := by
    refine content?_congr hl hd (hchanges.linkFree hl) (h.wellFormed hd) hchanges.workingDirectory
      hup fun content => hchanges.file_iff ?_ content
    rintro ⟨input, hmem, hsame⟩
    exact hapart input hmem hsame
  rw [listing, listing, hcontent]

/-- At every stage, making the outputs directory ends as from the beginning. -/
theorem Stage.makeOutputs (hl : d.LinkFree) (hd : d.WellFormed)
    (hup : Path.up ∉ settings.outputs.names) (h : d.Stage grammars settings language inputs now) :
    (now.makeOutputs settings).1 = (d.makeOutputs settings).1 ∧
      d.Opened grammars settings language inputs (now.makeOutputs settings).2 := by
  rcases h with ⟨hnone, hsame⟩ | ⟨_, hopened⟩
  · obtain ⟨hfault, hmade⟩ := makeOutputs_congr hl hd hup hsame
    refine ⟨hfault, hmade.wellFormed (hd.makeOutputs hl rfl), hmade.changes _ _, ?_⟩
    rintro input hmem content ⟨_, _, _, hlisting, _⟩
    obtain ⟨failure, hfailure⟩ := hnone input hmem
    simp [hlisting] at hfailure
  · rcases hmake : d.makeOutputs settings with ⟨_ | cause, made⟩
    · have hmade := hopened.changes
      rw [hmake] at hmade
      rw [makeOutputs_of_changes hmake hmade]
      exact ⟨rfl, hopened⟩
    · have hagain := makeOutputs_again hl hd hup hmake
      have hsame := hopened.same (congrArg Prod.fst hmake)
      rw [hmake] at hsame
      have hmadeLinkFree : made.LinkFree := (changes_makeOutputs hl hmake).linkFree hl
      have hmadeWellFormed : made.WellFormed := hd.makeOutputs hl hmake
      obtain ⟨hfault, hmade⟩ := makeOutputs_congr hmadeLinkFree hmadeWellFormed hup hsame
      rw [hagain] at hfault hmade
      refine ⟨hfault, hmade.wellFormed hmadeWellFormed, ?_, ?_⟩
      · rw [hmake]
        exact hmade.changes _ _
      · intro input _ content hwrites
        have := hwrites.made
        simp [hmake] at this

/-! ## One more input -/

section Step

variable {input : Path}

theorem Opened.skip (h : d.Opened grammars settings language inputs now)
    (hinput : ∀ content, ¬ d.Writes grammars settings language input content) :
    d.Opened grammars settings language (inputs ++ [input]) now where
  wellFormed := h.wellFormed
  changes := h.changes.mono (fun _ => id) fun _ ⟨y, hy, hwrites⟩ =>
    ⟨y, List.mem_append_left _ hy, hwrites⟩
  written y hy content hwrites := by
    rcases List.mem_append.mp hy with hy | hy
    · exact h.written y hy content hwrites
    · rw [List.mem_singleton.mp hy] at hwrites
      exact absurd hwrites (hinput content)

theorem Opened.add (hl : d.LinkFree) (h : d.Opened grammars settings language inputs now)
    {content : Bytes} (hinput : d.Writes grammars settings language input content)
    (hdistinct : ∀ y ∈ inputs, settings.outputPath y ≠ settings.outputPath input)
    {written : Disk} (hwritten : now.write (settings.outputPath input) content = .ok written) :
    d.Opened grammars settings language (inputs ++ [input]) written := by
  have hmade : Changes _ _ d (d.makeOutputs settings).2 := changes_makeOutputs hl rfl
  have htarget : now.target (settings.outputPath input) =
      d.target (settings.outputPath input) := by
    rw [h.changes.target, hmade.target]
  obtain ⟨hchanges, hthere⟩ := changes_write (h.linkFree hl) hwritten
  rw [htarget] at hthere hchanges
  refine ⟨h.wellFormed.write (h.linkFree hl) hwritten, ?_, ?_⟩
  · refine (h.changes.mono (fun _ => id) ?_).trans (hchanges.mono (fun _ => id) ?_)
    · rintro l ⟨y, hy, hwrites⟩
      exact ⟨y, List.mem_append_left _ hy, hwrites⟩
    · rintro l rfl
      exact ⟨input, by simp, ⟨content, hinput⟩, rfl⟩
  · intro y hy other hwrites
    rcases List.mem_append.mp hy with hy | hy
    · have hne : ¬ d.target (settings.outputPath y) = d.target (settings.outputPath input) := by
        rw [target_outputPath_inj]
        exact hdistinct y hy
      exact (hchanges.file_iff hne other).mpr (h.written y hy other hwrites)
    · obtain rfl := List.mem_singleton.mp hy
      have hsame : other = content := by
        obtain ⟨_, _, _, hlisting, _, rfl⟩ := hwrites
        obtain ⟨_, _, _, hlisting', _, rfl⟩ := hinput
        rw [hlisting, Except.ok.injEq, Prod.mk.injEq] at hlisting'
        rw [hlisting'.2]
      rw [hsame]
      exact hthere

/-- Once the outputs directory has been made, the path of another listing leads on as it did
then. -/
theorem Opened.locate_eq (hl : d.LinkFree) (hd : d.WellFormed)
    (hups : Path.up ∉ settings.outputs.names)
    (h : d.Opened grammars settings language inputs now) {made : Disk}
    (hmade : d.makeOutputs settings = (none, made))
    (hdistinct : ∀ y ∈ inputs, settings.outputPath y ≠ settings.outputPath input) :
    now.locate .write (settings.outputPath input) =
      made.locate .write (settings.outputPath input) := by
  have hchanges := changes_makeOutputs hl hmade
  have hlater := h.changes
  rw [hmade] at hlater
  have hrow := row_of_makeOutputs hl hd hups hmade
  have hrow' := hrow.changes hlater
  rw [← hlater.start, ← start_outputPath now settings input] at hrow'
  rw [← start_outputPath made settings input] at hrow
  refine locate_congr_of_row (hchanges.linkFree hl) (h.linkFree hl) hlater.workingDirectory
    (Settings.names_outputPath settings input) ?_ hrow hrow' ?_ .write
  · rw [Settings.names_outputPath, List.mem_append, List.mem_singleton, not_or]
    exact ⟨hups, Ne.symm (Settings.outputName_ne_up input)⟩
  · rcases hlater.entry (made.target (settings.outputPath input)) with
      hsame | ⟨hnowhere, _⟩ | ⟨⟨y, hy, _, htarget⟩, _⟩
    · exact hsame
    · exact hnowhere.elim
    · rw [hchanges.target] at htarget
      exact absurd (target_outputPath_inj.mp htarget).symm (hdistinct y hy)

theorem Stage.skip (h : d.Stage grammars settings language inputs now) {failure : Failure}
    (hinput : d.listing grammars (settings.inputPath input) language = .error failure) :
    d.Stage grammars settings language (inputs ++ [input]) now := by
  rcases h with ⟨hnone, hsame⟩ | ⟨⟨y, hy, hfound⟩, hopened⟩
  · refine .inl ⟨fun y hy => ?_, hsame⟩
    rcases List.mem_append.mp hy with hy | hy
    · exact hnone y hy
    · exact ⟨failure, List.mem_singleton.mp hy ▸ hinput⟩
  · refine .inr ⟨⟨y, List.mem_append_left _ hy, hfound⟩, hopened.skip ?_⟩
    rintro content ⟨_, _, _, hlisting, _⟩
    simp [hinput] at hlisting

/-- At every stage, an input that meets none of the others is listed as from the beginning,
and leads to the next stage. -/
theorem Stage.renderTo (hl : d.LinkFree) (hd : d.WellFormed)
    (hups : Path.up ∉ settings.outputs.names) (h : d.Stage grammars settings language inputs now)
    (hup : Path.up ∉ (settings.inputPath input).names)
    (hapart : ∀ y ∈ inputs,
      d.target (settings.inputPath input) ≠ d.target (settings.outputPath y))
    (hdistinct : ∀ y ∈ inputs, settings.outputPath y ≠ settings.outputPath input) :
    (now.renderTo grammars settings language input).1 =
        (d.renderTo grammars settings language input).1 ∧
      d.Stage grammars settings language (inputs ++ [input])
        (now.renderTo grammars settings language input).2 := by
  have hlisting' := h.listing_eq hl hd hup hapart
  obtain ⟨hfault, hopened⟩ := h.makeOutputs hl hd hups
  rcases renderTo_cases grammars settings language d input with
    ⟨failure, hlisting, hend⟩ | ⟨found, lines, hlisting, hlisted⟩
  · rw [hend, Disk.renderTo, hlisting', hlisting]
    exact ⟨rfl, h.skip hlisting⟩
  · -- the input can be listed, so it gets to the outputs directory
    have hreached : ∀ {after}, d.Opened grammars settings language (inputs ++ [input]) after →
        d.Stage grammars settings language (inputs ++ [input]) after := fun hafter =>
      .inr ⟨⟨input, by simp, _, hlisting⟩, hafter⟩
    rw [Disk.renderTo, hlisting', hlisting]
    dsimp only
    rw [writeListing]
    rcases hmade' : now.makeOutputs settings with ⟨fault, made'⟩
    rw [hmade'] at hfault hopened
    dsimp only at hfault hopened
    rcases hlisted with ⟨cause, made, hmade, hend⟩ | ⟨made, hmade, hsaved⟩
    · obtain rfl : fault = some cause := by rw [hfault, hmade]
      rw [hend]
      refine ⟨rfl, hreached (hopened.skip fun content hwrites => ?_)⟩
      have := hwrites.made
      simp [hmade] at this
    · obtain rfl : fault = none := by rw [hfault, hmade]
      dsimp only
      rw [saved]
      rcases write_congr (hopened.locate_eq hl hd hups hmade hdistinct)
          (Text.bytes (joinLines lines))
        with ⟨cause, hwrite, hwrite'⟩ | ⟨written, written', hwrite, hwrite'⟩
      · rcases hsaved with ⟨cause', hcause, hend⟩ | ⟨written, hok, _⟩
        · obtain rfl : cause' = cause := by simpa [hwrite] using hcause.symm
          rw [hwrite', hend]
          refine ⟨rfl, hreached (hopened.skip ?_)⟩
          rintro content ⟨_, _, _, _, hfile, _⟩
          simp [hend] at hfile
        · simp [hwrite] at hok
      · rcases hsaved with ⟨cause', hcause, _⟩ | ⟨written, _, hend⟩
        · simp [hwrite] at hcause
        · rw [hwrite', hend]
          refine ⟨rfl, hreached (hopened.add hl ?_ hdistinct hwrite')⟩
          exact ⟨found, lines, _, hlisting, by rw [hend], rfl⟩

end Step

/-! ## All inputs -/

theorem stage_nil : d.Stage grammars settings language [] d :=
  .inl ⟨by simp, .refl d⟩

/-- The run: inputs that do not meet lead from stage to stage, in any order. -/
theorem Stage.renderAll (hl : d.LinkFree) (hd : d.WellFormed)
    (hups : Path.up ∉ settings.outputs.names) {more : List Path}
    (h : d.Stage grammars settings language inputs now)
    (hup : ∀ x ∈ more, Path.up ∉ (settings.inputPath x).names)
    (hapart : ∀ x ∈ more, ∀ y ∈ inputs ++ more,
      d.target (settings.inputPath x) ≠ d.target (settings.outputPath y))
    (hdistinct : ((inputs ++ more).map settings.outputPath).Nodup) :
    d.Stage grammars settings language (inputs ++ more)
      (now.renderAll grammars settings language more) := by
  induction more generalizing inputs now with
  | nil => simpa [Disk.renderAll] using h
  | cons x more ih =>
      rw [List.append_cons] at hapart hdistinct ⊢
      have hx : ∀ y ∈ inputs, settings.outputPath y ≠ settings.outputPath x := by
        intro y hy hsame
        rw [List.map_append, List.map_append] at hdistinct
        have hfirst := (List.nodup_append.mp (List.nodup_append.mp hdistinct).1).2.2
        exact hfirst _ (List.mem_map_of_mem hy) _ (by simp) hsame
      have hstep := h.renderTo hl hd hups (hup x (by simp))
        (fun y hy => hapart x (by simp) y (by simp [hy])) hx
      rw [renderAll_cons]
      exact ih hstep.2 (fun y hy => hup y (List.mem_cons_of_mem _ hy))
        (fun y hy => hapart y (List.mem_cons_of_mem _ hy)) hdistinct

/-- What a stage holds is known from which inputs have been listed. -/
theorem Stage.same {others : List Path} {later : Disk}
    (h : d.Stage grammars settings language inputs now)
    (h' : d.Stage grammars settings language others later)
    (hmem : ∀ input, input ∈ inputs ↔ input ∈ others) : Same now later := by
  rcases h with ⟨hnone, hsame⟩ | ⟨⟨y, hy, hfound⟩, hopened⟩ <;>
    rcases h' with ⟨hnone', hsame'⟩ | ⟨⟨y', hy', hfound'⟩, hopened'⟩
  · exact hsame.symm.trans hsame'
  · obtain ⟨failure, hfailure⟩ := hnone y' ((hmem y').mpr hy')
    simp [hfailure] at hfound'
  · obtain ⟨failure, hfailure⟩ := hnone' y ((hmem y).mp hy)
    simp [hfailure] at hfound
  · refine ⟨hopened'.changes.workingDirectory.trans hopened.changes.workingDirectory.symm,
      fun l => ?_⟩
    -- either a listing has been written here, or what the outputs directory was made on
    by_cases hl : ∃ input ∈ inputs, (∃ content, d.Writes grammars settings language input content) ∧
        l = d.target (settings.outputPath input)
    · obtain ⟨input, hinput, ⟨content, hwrites⟩, rfl⟩ := hl
      rw [hopened.written input hinput content hwrites,
        hopened'.written input ((hmem input).mp hinput) content hwrites]
    · have hl' : ¬ ∃ input ∈ others,
          (∃ content, d.Writes grammars settings language input content) ∧
            l = d.target (settings.outputPath input) := by
        rintro ⟨input, hinput, hwrites⟩
        exact hl ⟨input, (hmem input).mpr hinput, hwrites⟩
      rw [hopened.changes.entry_of_not hl, hopened'.changes.entry_of_not hl']

/-- At every stage the listing of an input that ends well can be read where it is reported. -/
theorem Stage.read_of_ok (hl : d.LinkFree) (h : d.Stage grammars settings language inputs now)
    {input : Path} (hinput : input ∈ inputs) {file : RenderedFile}
    (hfile : (d.renderTo grammars settings language input).1 = .ok file) :
    ∃ lines, d.listing grammars (settings.inputPath input) language = .ok (file.language, lines) ∧
      now.read file.output = .ok (Text.bytes (joinLines lines)) := by
  obtain ⟨lines, made, hlisting, hmade, hwritten, -, houtput, -⟩ := renderTo_ok (Prod.ext hfile rfl)
  refine ⟨lines, hlisting, ?_⟩
  rcases h with ⟨hnone, _⟩ | ⟨_, hopened⟩
  · obtain ⟨failure, hfailure⟩ := hnone input hinput
    simp [hlisting] at hfailure
  · have hmaking := changes_makeOutputs hl hmade
    have hlater := hopened.changes
    rw [hmade] at hlater
    have hthere := hopened.written input hinput _ ⟨_, lines, file, hlisting, hfile, rfl⟩
    rw [← hmaking.target] at hthere
    rw [houtput]
    exact read_of_content? (content?_of_write (hmaking.linkFree hl) hlater hthere hwritten)

end TreeListing.Disk

namespace TreeListing.Batch

open Disk

/-- On this disk the inputs of a batch do not meet: no path leads up, their listings have
different paths, and none of them lies where a listing goes. -/
structure Apart (settings : Settings) (inputs : List Path) (d : Disk) : Prop where
  notMem_up_input : ∀ input ∈ inputs, Path.up ∉ (settings.inputPath input).names
  notMem_up_output : ∀ input ∈ inputs, Path.up ∉ (settings.outputPath input).names
  nodup : (inputs.map settings.outputPath).Nodup
  apart : ∀ input ∈ inputs, ∀ other ∈ inputs,
    d.target (settings.inputPath input) ≠ d.target (settings.outputPath other)

section Schedules

variable {grammars : Grammars} {settings : Settings} {language : Option Language}
  {inputs : List Path} {d : Disk}

/-- A complete schedule lists the inputs in some order. -/
theorem Complete.perm {tasks : List (Task inputs.length)} (h : Complete tasks) :
    (tasks.map fun t => t.input).Perm inputs := by
  have hpositions : (tasks.map Task.position).Perm (List.finRange inputs.length) :=
    (List.perm_ext_iff_of_nodup h.nodup (List.nodup_finRange _)).mpr fun position =>
      ⟨fun _ => List.mem_finRange position, fun _ => h.all position⟩
  have hinputs := hpositions.map fun position => inputs.get position
  rwa [List.map_map, map_finRange] at hinputs

theorem Apart.perm {order : List Path} (h : Apart settings inputs d) (hperm : order.Perm inputs) :
    Apart settings order d where
  notMem_up_input input hinput := h.notMem_up_input input (hperm.mem_iff.mp hinput)
  notMem_up_output input hinput := h.notMem_up_output input (hperm.mem_iff.mp hinput)
  nodup := (hperm.map _).nodup_iff.mpr h.nodup
  apart input hinput other hother :=
    h.apart input (hperm.mem_iff.mp hinput) other (hperm.mem_iff.mp hother)

theorem Apart.of_append {first rest : List Path} (h : Apart settings (first ++ rest) d) :
    Apart settings first d where
  notMem_up_input input hinput := h.notMem_up_input input (List.mem_append_left _ hinput)
  notMem_up_output input hinput := h.notMem_up_output input (List.mem_append_left _ hinput)
  nodup := by
    have hnodup := h.nodup
    rw [List.map_append] at hnodup
    exact (List.nodup_append.mp hnodup).1
  apart input hinput other hother :=
    h.apart input (List.mem_append_left _ hinput) other (List.mem_append_left _ hother)

theorem Apart.notMem_up_outputs {input : Path} (h : Apart settings inputs d)
    (hinput : input ∈ inputs) : Path.up ∉ settings.outputs.names := fun hup =>
  h.notMem_up_output input hinput (by
    rw [Settings.names_outputPath]
    exact List.mem_append_left _ hup)

/-- Inputs that do not meet lead from the beginning to a stage. -/
theorem Apart.stage (hl : d.LinkFree) (hd : d.WellFormed) (h : Apart settings inputs d) :
    d.Stage grammars settings language inputs (d.renderAll grammars settings language inputs) := by
  cases inputs with
  | nil => exact stage_nil
  | cons first rest =>
      exact stage_nil.renderAll hl hd (h.notMem_up_outputs List.mem_cons_self) h.notMem_up_input
        h.apart h.nodup

/-- However inputs that do not meet are scheduled, they lead to a stage. -/
theorem Apart.stage_run (hl : d.LinkFree) (hd : d.WellFormed) (h : Apart settings inputs d)
    {tasks : List (Task inputs.length)} (hc : Complete tasks) :
    d.Stage grammars settings language (tasks.map fun t => t.input)
      (run grammars settings language inputs { disk := d } tasks).disk := by
  rw [disk_run settings language fun _ => .fresh]
  exact (h.perm hc.perm).stage hl hd

/-- After others that it does not meet, an input is listed as from the beginning. -/
theorem Apart.renderTo_eq (hl : d.LinkFree) (hd : d.WellFormed) {before after : List Path}
    {input : Path} (h : Apart settings (before ++ input :: after) d) :
    ((d.renderAll grammars settings language before).renderTo grammars settings language input).1 =
      (d.renderTo grammars settings language input).1 := by
  have hinput : input ∈ before ++ input :: after := by simp
  have hdistinct : ∀ y ∈ before, settings.outputPath y ≠ settings.outputPath input := by
    intro y hy hsame
    have hnodup := h.nodup
    rw [List.map_append] at hnodup
    exact (List.nodup_append.mp hnodup).2.2 _ (List.mem_map_of_mem hy) _ (by simp) hsame
  exact ((h.of_append.stage hl hd).renderTo hl hd (h.notMem_up_outputs hinput)
    (h.notMem_up_input input hinput)
    (fun y hy => h.apart input hinput y (List.mem_append_left _ hy)) hdistinct).1

/-- However inputs that do not meet are scheduled, each has the outcome that it has alone. -/
theorem Apart.outcomes_eq (hl : d.LinkFree) (hd : d.WellFormed) (h : Apart settings inputs d)
    {tasks : List (Task inputs.length)} (hc : Complete tasks) :
    outcomes inputs (run grammars settings language inputs { disk := d } tasks) =
      inputs.map fun input => ⟨input, (d.renderTo grammars settings language input).1⟩ := by
  have hresult : ∀ position,
      (run grammars settings language inputs { disk := d } tasks).result position =
        some (d.renderTo grammars settings language (inputs.get position)).1 := by
    intro position
    obtain ⟨before, t, after, hcut, rfl⟩ := hc.exists_cut position
    have horder := h.perm hc.perm
    rw [hcut, List.map_append, List.map_cons] at horder
    rw [result_of_complete grammars settings language hc hcut, horder.renderTo_eq hl hd]
    rfl
  rw [Batch.outcomes_eq hresult]
  calc (List.finRange inputs.length).map
        (fun position => (⟨inputs.get position,
          (d.renderTo grammars settings language (inputs.get position)).1⟩ : Outcome))
      = ((List.finRange inputs.length).map fun position => inputs.get position).map
          fun input => ⟨input, (d.renderTo grammars settings language input).1⟩ := by
        rw [List.map_map]
        rfl
    _ = _ := by rw [map_finRange]

/-- However inputs that do not meet are scheduled, the same disk is left. -/
theorem Apart.same (hl : d.LinkFree) (hd : d.WellFormed) (h : Apart settings inputs d)
    {tasks : List (Task inputs.length)} (hc : Complete tasks) :
    Same (d.renderAll grammars settings language inputs)
      (run grammars settings language inputs { disk := d } tasks).disk :=
  (h.stage hl hd).same (h.stage_run hl hd hc) fun _ => hc.perm.mem_iff.symm

/-- However a batch is scheduled and whichever worker lists an input, every input has the
outcome that listing it alone has, and the same disk is left; as long as the inputs do not
meet. -/
theorem renderBatch_scheduled (grammars : Grammars) (language : Option Language)
    (hl : d.LinkFree) (hd : d.WellFormed) (h : Apart settings inputs d) :
    ∃ after, (Work.renderBatch grammars settings inputs language).runIn { disk := d } =
        (.ok (inputs.map fun input =>
          ⟨input, ((Work.renderToOutput grammars settings input language).runIn { disk := d }).1⟩),
          after) ∧
      ∀ tasks : List (Task inputs.length), Complete tasks →
        outcomes inputs (run grammars settings language inputs { disk := d } tasks) =
          (inputs.map fun input =>
            ⟨input, ((Work.renderToOutput grammars settings input language).runIn
              { disk := d }).1⟩) ∧
        Same after.disk (run grammars settings language inputs { disk := d } tasks).disk := by
  have halone : ∀ input, ((Work.renderToOutput grammars settings input language).runIn
      { disk := d }).1 = (d.renderTo grammars settings language input).1 := by
    intro input
    obtain ⟨_, _, _, hrun⟩ :=
      Work.ends_renderToOutput grammars d settings language input {} #[] .fresh
    rw [hrun]
  obtain ⟨after, hrun, hdisk⟩ := runIn_renderBatch grammars settings language d inputs
  rw [h.outcomes_eq hl hd (complete_inOrder _)] at hrun
  rw [(run_inOrder grammars settings language d inputs).2] at hdisk
  simp only [halone]
  refine ⟨after, hrun, fun tasks hc => ⟨h.outcomes_eq hl hd hc, ?_⟩⟩
  rw [hdisk]
  exact h.same hl hd hc

end Schedules

theorem apart_sampleInputs : Apart .default sampleInputs sampleDisk where
  notMem_up_input := by decide +kernel
  notMem_up_output := by decide +kernel
  nodup := by decide +kernel
  apart := by decide +kernel

/-- Two workers that do the second input first end as one that does them in order. -/
theorem renderBatch_scheduled_sample :
    ∃ after, (Work.renderBatch (fun _ => .ok leafGrammar) .default sampleInputs none).runIn
        { disk := sampleDisk } =
      (.ok (outcomes sampleInputs (run (fun _ => .ok leafGrammar) .default none sampleInputs
        { disk := sampleDisk } sampleTasks)), after) ∧
      Same after.disk (run (fun _ => .ok leafGrammar) .default none sampleInputs
        { disk := sampleDisk } sampleTasks).disk := by
  obtain ⟨after, hrun, hscheduled⟩ := renderBatch_scheduled (fun _ => .ok leafGrammar) none
    linkFree_sampleDisk wellFormed_sampleDisk apart_sampleInputs
  obtain ⟨houtcomes, hsame⟩ := hscheduled sampleTasks complete_sampleTasks
  exact ⟨after, hrun.trans (by rw [houtcomes]), hsame⟩

end TreeListing.Batch
