import TreeListing.Proofs.Batch.Frame
import TreeListing.Proofs.CommandLine.Ends

/-!
# What a run changes

A run that stops before it lists anything, or lists to the standard output, leaves the disk
as it is.  Any other run is a batch on the disk that it starts from, so it changes what a
batch changes and nothing else (`run_changes`).
-/

namespace TreeListing.CommandLine

variable (grammars : Grammars) (env : Environment) (time : String) (arguments : List Bytes)
  {d : Disk}

/-- A run leaves the disk as it is when its arguments stop it, when its settings or its
language cannot be found, and when it lists to the standard output.  Any other run is a batch
of its inputs; and however that batch is scheduled, nothing is removed, directories are made
only on the way to the outputs directory, and the only files that are written are those
that its outcomes report. -/
theorem run_changes (hl : d.LinkFree) :
    (∀ stop, Arguments.ofBytes arguments = .error stop →
      (run grammars env time arguments d).2 = d) ∧
    ∀ a, Arguments.ofBytes arguments = .ok a →
      (∀ failure, prepared d a = .error failure → (run grammars env time arguments d).2 = d) ∧
      ∀ settings language, prepared d a = .ok (settings, language) →
        (a.stdout = true → (run grammars env time arguments d).2 = d) ∧
        (a.stdout = false →
          (∃ ends log, (run grammars env time arguments d).1 =
              reportOutput env time a (reportOutcomes env.coloursMessages ends) log ∧
            Batch.MayEnd grammars settings language a.inputs d ends
              (run grammars env time arguments d).2) ∧
          ∀ ends final, Batch.MayEnd grammars settings language a.inputs d ends final →
            Disk.Changes (d.onWayTo settings.outputs)
              (fun l => ∃ o ∈ ends, ∃ file, o.result = .ok file ∧ o.requested ∈ a.inputs ∧
                file.output = settings.outputPath o.requested ∧ l = d.target file.output)
              d final) := by
  constructor
  · intro stop hstop
    rw [run, hstop]
  · intro a ha
    obtain ⟨log, hrun⟩ := run_of_arguments grammars env time ha d
    rw [hrun]
    constructor
    · intro failure hfailure
      rw [hfailure]
      rfl
    · intro settings language hprepared
      rw [hprepared, listed]
      constructor
      · intro hstdout
        rw [if_pos hstdout]
      · intro hstdout
        rw [hstdout, if_neg (by simp)]
        exact ⟨⟨_, log, rfl, Batch.mayEnd_renderBatch grammars settings language d a.inputs⟩,
          fun ends final => Batch.changes_of_mayEnd hl⟩

/-- The settings of a run in the root directory without a settings file. -/
def rootSettings : Settings :=
  ⟨Path.ofText "/inputs", Path.ofText "/outputs"⟩

/-- A run that lists one of two files is a batch, and changes what its outcome says. -/
theorem run_changes_sample :
    Arguments.ofBytes [Text.bytes "a.js"] = .ok { inputs := [Path.ofText "a.js"] } ∧
      prepared Batch.sampleDisk { inputs := [Path.ofText "a.js"] } = .ok (rootSettings, none) ∧
      ∃ ends, Batch.MayEnd (fun _ => .ok Batch.leafGrammar) rootSettings none
          [Path.ofText "a.js"] Batch.sampleDisk ends
          (run (fun _ => .ok Batch.leafGrammar) (fun _ => none) "" [Text.bytes "a.js"]
            Batch.sampleDisk).2 ∧
        Disk.Changes (Batch.sampleDisk.onWayTo rootSettings.outputs)
          (fun l => ∃ o ∈ ends, ∃ file, o.result = .ok file ∧ o.requested ∈ [Path.ofText "a.js"] ∧
            file.output = rootSettings.outputPath o.requested ∧
            l = Batch.sampleDisk.target file.output)
          Batch.sampleDisk
          (run (fun _ => .ok Batch.leafGrammar) (fun _ => none) "" [Text.bytes "a.js"]
            Batch.sampleDisk).2 := by
  have harguments : Arguments.ofBytes [Text.bytes "a.js"] =
      .ok { inputs := [Path.ofText "a.js"] } := by decide +kernel
  have hprepared : prepared Batch.sampleDisk { inputs := [Path.ofText "a.js"] } =
      .ok (rootSettings, none) := by decide +kernel
  obtain ⟨⟨ends, _, _, hbatch⟩, hchanges⟩ :=
    ((run_changes (fun _ => .ok Batch.leafGrammar) (fun _ => none) "" [Text.bytes "a.js"]
      Batch.linkFree_sampleDisk).2 _ harguments).2 _ _ hprepared |>.2 rfl
  exact ⟨harguments, hprepared, ends, hbatch, hchanges _ _ hbatch⟩

end TreeListing.CommandLine
