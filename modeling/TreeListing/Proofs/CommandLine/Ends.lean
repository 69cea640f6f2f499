import TreeListing.CommandLine.Run
import TreeListing.Proofs.Batch.Schedule

/-!
# How the work of a run ends

Finding the settings and listing to the standard output look at the disk and leave it as it
is.  `Disk.printed` is the report that listing to the standard output ends with.
-/

namespace TreeListing.CommandLine

variable (grammars : Grammars) (d : Disk)

/-! ## Settings -/

theorem looks_loadFile (base path : Path) :
    Work.Looks grammars d (Settings.loadFile base path) := by
  refine Work.Looks.bind Work.Looks.disk fun seen => ?_
  cases seen.readText path with
  | error cause => exact Work.Looks.throw _
  | ok text =>
      dsimp only
      cases Settings.read text with
      | error fault => exact Work.Looks.throw _
      | ok settings => exact (Work.Looks.report _ _ _ _).bind fun _ => Work.Looks.pure _

theorem looks_load (base : Path) (given : Option Path) :
    Work.Looks grammars d (Settings.load base given) := by
  refine Work.Looks.bind Work.Looks.disk fun seen => ?_
  split
  · exact looks_loadFile grammars d _ _
  · split
    · exact Work.Looks.throw _
    · exact (Work.Looks.report _ _ _ _).bind fun _ => Work.Looks.pure _

/-- Finding the settings of a run leaves the disk as it is. -/
theorem looks_prepare (base : Path) (a : Arguments) : Work.Looks grammars d (prepare base a) := by
  refine (looks_load grammars d base a.config).bind fun settings => ?_
  refine (Work.Looks.report _ _ _ _).bind fun _ => ?_
  cases a.language with
  | none => exact Work.Looks.pure _
  | some name => exact (Work.Looks.ofExcept _).bind fun _ => Work.Looks.pure _

end TreeListing.CommandLine

namespace TreeListing

/-! ## Listing to the standard output -/

open CommandLine in
/-- The report of listing inputs to the standard output. -/
def Disk.printed (grammars : Grammars) (d : Disk) (coloured several : Bool) (settings : Settings)
    (language : Option Language) (first : Bool) : List Path → Report
  | [] => {}
  | input :: rest =>
      match d.listing grammars (settings.inputPath input) language with
      | .error failure => { failure }
      | .ok (_, lines) =>
          let above := (if first then [] else [""])
            ++ (if several then [inputHeading coloured input] else [])
          let below := printed grammars d coloured several settings language false rest
          { below with printed := above ++ joinLines lines :: below.printed }

namespace CommandLine

variable (grammars : Grammars) (d : Disk)

theorem ends_printListings (coloured several : Bool) (settings : Settings)
    (language : Option Language) (first : Bool) (inputs : List Path) :
    Work.Ends grammars d (printListings grammars coloured several settings language first inputs)
      (.ok (d.printed grammars coloured several settings language first inputs)) d := by
  induction inputs generalizing first with
  | nil => exact Work.Ends.pure _
  | cons input rest ih =>
      have hlisting := Work.ends_renderFile grammars d (settings.inputPath input) language
      refine hlisting.attempt.bind ?_
      rw [Disk.printed]
      cases d.listing grammars (settings.inputPath input) language with
      | error failure => exact Work.Ends.pure _
      | ok found => exact (ih false).bind (Work.Ends.pure _)

/-! ## The listing part of a run -/

/-- What finding the settings of a run ends with. -/
def prepared (d : Disk) (a : Arguments) : Except Failure (Settings × Option Language) :=
  ((prepare (Disk.pathOf d.workingDirectory) a).runIn { disk := d }).1

theorem ends_prepared (a : Arguments) :
    Work.Ends grammars d (prepare (Disk.pathOf d.workingDirectory) a) (prepared d a) d := by
  obtain ⟨r, hr⟩ := looks_prepare grammars d (Disk.pathOf d.workingDirectory) a
  obtain ⟨_, _, _, hrun⟩ := hr {} #[] .fresh
  rw [prepared, hrun]
  exact hr

/-- The report of a run and the disk that it leaves, from what finding its settings ends
with. -/
def listed (grammars : Grammars) (coloured : Bool) (d : Disk) (a : Arguments) :
    Except Failure (Settings × Option Language) → Report × Disk
  | .error failure => ({ failure }, d)
  | .ok (settings, language) =>
      if a.stdout then
        (d.printed grammars coloured (1 < a.inputs.length) settings language true a.inputs, d)
      else
        (reportOutcomes coloured (d.outcomesOf grammars settings language a.inputs),
          d.renderAll grammars settings language a.inputs)

theorem ends_listInputs (coloured : Bool) (d : Disk) (a : Arguments) :
    Work.Ends grammars d (listInputs grammars coloured (Disk.pathOf d.workingDirectory) a)
      (.ok (listed grammars coloured d a (prepared d a)).1)
      (listed grammars coloured d a (prepared d a)).2 := by
  refine (ends_prepared grammars d a).attempt.bind ?_
  cases prepared d a with
  | error failure => exact Work.Ends.pure _
  | ok found =>
      obtain ⟨settings, language⟩ := found
      rw [listed]
      dsimp only
      cases a.stdout with
      | true => exact (ends_printListings grammars d _ _ _ _ _ _).withOwnParser
      | false =>
          exact (Batch.ends_renderBatch grammars settings language d a.inputs).bind
            (Work.Ends.pure _)

/-- A run with arguments ends as its listing part does. -/
theorem run_of_arguments (grammars : Grammars) (env : Environment) (time : String)
    {arguments : List Bytes} {a : Arguments} (h : Arguments.ofBytes arguments = .ok a) (d : Disk) :
    ∃ log, run grammars env time arguments d =
      (reportOutput env time a (listed grammars env.coloursMessages d a (prepared d a)).1 log,
        (listed grammars env.coloursMessages d a (prepared d a)).2) := by
  obtain ⟨_, log, _, hrun⟩ := ends_listInputs grammars env.coloursMessages d a {} #[] .fresh
  refine ⟨log.toList, ?_⟩
  rw [run, h]
  dsimp only
  rw [hrun]

end CommandLine

end TreeListing
