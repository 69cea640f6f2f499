import TreeListing.Proofs.Work.Ends

/-!
# Schedules of a batch

The inputs of a batch may be listed in any order, and by several workers that each keep a
parser of their own.  A schedule is a list of tasks: which input is listed next, and by
whom.  All tasks share one disk.  Whatever the order, the outcomes stand in the order of
the inputs.

Who does a task has no part in how it ends: a run of a schedule is known from the order of
its inputs alone (`disk_run`, `result_run`).  Listing all inputs by one worker in the given
order is one of the schedules (`mayEnd_renderBatch`).
-/

namespace TreeListing

/-! ## One after the other -/

namespace Disk

variable (grammars : Grammars) (settings : Settings) (language : Option Language)

/-- The disk that listing inputs one after the other leaves. -/
def renderAll (d : Disk) (inputs : List Path) : Disk :=
  inputs.foldl (fun d input => (d.renderTo grammars settings language input).2) d

/-- What becomes of inputs that are listed one after the other. -/
def outcomesOf : Disk → List Path → List Outcome
  | _, [] => []
  | d, input :: rest =>
      ⟨input, (d.renderTo grammars settings language input).1⟩
        :: outcomesOf (d.renderTo grammars settings language input).2 rest

end Disk

namespace Batch

/-! ## Tasks -/

/-- One of `n` inputs, given by its position, and the worker that lists it. -/
structure Task (n : Nat) where
  position : Fin n
  worker : Nat

/-- The input of a task. -/
def Task.input {inputs : List Path} (t : Task inputs.length) : Path :=
  inputs.get t.position

theorem Task.input_mem {inputs : List Path} (t : Task inputs.length) : t.input ∈ inputs :=
  List.get_mem inputs t.position

/-- How far a batch of `n` inputs has got. -/
structure Progress (n : Nat) where
  disk : Disk
  log : Array Log.Event := #[]
  /-- The parser of each worker. -/
  parser : Nat → SourceParser := fun _ => {}
  /-- What has become of each input that has been listed. -/
  result : Fin n → Option (Except Failure RenderedFile) := fun _ => none

/-- Every input is listed once. -/
structure Complete {n : Nat} (tasks : List (Task n)) : Prop where
  nodup : (tasks.map Task.position).Nodup
  all : ∀ position, position ∈ tasks.map Task.position

/-- A schedule is cut at the task of any input. -/
theorem Complete.exists_cut {n : Nat} {tasks : List (Task n)} (h : Complete tasks)
    (position : Fin n) :
    ∃ before t after, tasks = before ++ t :: after ∧ t.position = position := by
  obtain ⟨t, ht, hposition⟩ := List.mem_map.mp (h.all position)
  obtain ⟨before, after, hcut⟩ := List.append_of_mem ht
  exact ⟨before, t, after, hcut, hposition⟩

/-- The input of a task does not come again. -/
theorem Complete.notMem_after {n : Nat} {tasks before after : List (Task n)} {t : Task n}
    (h : Complete tasks) (hcut : tasks = before ++ t :: after) :
    t.position ∉ after.map Task.position := by
  have hnodup := h.nodup
  rw [hcut, List.map_append, List.map_cons] at hnodup
  exact (List.nodup_cons.mp (List.nodup_append.mp hnodup).2.1).1

section Run

variable (grammars : Grammars) (settings : Settings) (language : Option Language)
  (inputs : List Path)

/-- Do one task as a whole: no other task reads or writes while it is done. -/
def perform (s : Progress inputs.length) (t : Task inputs.length) : Progress inputs.length :=
  let (result, after) :=
    (Work.renderToOutput grammars settings t.input language).runIn
      ⟨s.disk, s.parser t.worker, s.log⟩
  { disk := after.disk
    log := after.log
    parser := fun worker => if worker = t.worker then after.parser else s.parser worker
    result := fun position => if position = t.position then some result else s.result position }

/-- Do the tasks of a schedule. -/
def run (s : Progress inputs.length) (tasks : List (Task inputs.length)) :
    Progress inputs.length :=
  tasks.foldl (perform grammars settings language inputs) s

/-- What has become of the inputs, in their order. -/
def outcomes (s : Progress inputs.length) : List Outcome :=
  (List.finRange inputs.length).filterMap fun position =>
    (s.result position).map fun result => ⟨inputs.get position, result⟩

/-- From a disk, listing the inputs may end with these outcomes and leave this disk. -/
def MayEnd (d : Disk) (ends : List Outcome) (final : Disk) : Prop :=
  ∃ tasks, Complete tasks ∧
    outcomes inputs (run grammars settings language inputs { disk := d } tasks) = ends ∧
    (run grammars settings language inputs { disk := d } tasks).disk = final

end Run

/-! ## Runs -/

section Facts

variable {grammars : Grammars} (settings : Settings) (language : Option Language)
  {inputs : List Path}

/-- A task ends as the disk says, whoever does it. -/
theorem perform_eq {s : Progress inputs.length} (h : ∀ worker, (s.parser worker).Follows grammars)
    (t : Task inputs.length) :
    (∀ worker, ((perform grammars settings language inputs s t).parser worker).Follows grammars) ∧
      (perform grammars settings language inputs s t).disk =
        (s.disk.renderTo grammars settings language t.input).2 ∧
      (perform grammars settings language inputs s t).result = fun position =>
        if position = t.position then
          some (s.disk.renderTo grammars settings language t.input).1
        else s.result position := by
  obtain ⟨parser, log, hparser, hrun⟩ :=
    Work.ends_renderToOutput grammars s.disk settings language t.input (s.parser t.worker) s.log
      (h t.worker)
  rw [perform, hrun]
  refine ⟨fun worker => ?_, rfl, rfl⟩
  dsimp only
  split
  · exact hparser
  · exact h worker

theorem follows_run {s : Progress inputs.length} (h : ∀ worker, (s.parser worker).Follows grammars)
    (tasks : List (Task inputs.length)) (worker : Nat) :
    ((run grammars settings language inputs s tasks).parser worker).Follows grammars := by
  induction tasks generalizing s with
  | nil => exact h worker
  | cons t rest ih => exact ih (perform_eq settings language h t).1

/-- A schedule leaves the disk that its inputs leave when they are listed one after the
other. -/
theorem disk_run {s : Progress inputs.length} (h : ∀ worker, (s.parser worker).Follows grammars)
    (tasks : List (Task inputs.length)) :
    (run grammars settings language inputs s tasks).disk =
      s.disk.renderAll grammars settings language (tasks.map fun t => t.input) := by
  induction tasks generalizing s with
  | nil => rfl
  | cons t rest ih =>
      obtain ⟨hfollows, hdisk, -⟩ := perform_eq settings language h t
      rw [run, List.foldl_cons, ← run, ih hfollows, hdisk]
      rfl

theorem result_run_of_notMem {s : Progress inputs.length}
    (h : ∀ worker, (s.parser worker).Follows grammars) {tasks : List (Task inputs.length)}
    {position : Fin inputs.length} (hposition : position ∉ tasks.map Task.position) :
    (run grammars settings language inputs s tasks).result position = s.result position := by
  induction tasks generalizing s with
  | nil => rfl
  | cons t rest ih =>
      obtain ⟨hfollows, -, hresult⟩ := perform_eq settings language h t
      rw [List.map_cons, List.mem_cons, not_or] at hposition
      rw [run, List.foldl_cons, ← run, ih hfollows hposition.2, hresult]
      exact if_neg hposition.1

/-- The result of a task is what its input gives on the disk that the tasks before it
leave. -/
theorem result_run {s : Progress inputs.length}
    (h : ∀ worker, (s.parser worker).Follows grammars) {before after : List (Task inputs.length)}
    {t : Task inputs.length} (hlast : t.position ∉ after.map Task.position) :
    (run grammars settings language inputs s (before ++ t :: after)).result t.position =
      some ((s.disk.renderAll grammars settings language
        (before.map fun t => t.input)).renderTo grammars settings language
          t.input).1 := by
  have hbefore := follows_run settings language h before
  obtain ⟨hfollows, -, hresult⟩ :=
    perform_eq settings language hbefore t
  rw [run, List.foldl_append, List.foldl_cons, ← run, ← run,
    result_run_of_notMem settings language hfollows hlast, hresult]
  dsimp only
  rw [if_pos rfl, disk_run settings language h]

variable (grammars)

/-- In a complete schedule the result of every task is what its input gives on the disk that
the tasks before it leave. -/
theorem result_of_complete {d : Disk} {tasks before after : List (Task inputs.length)}
    {t : Task inputs.length} (hc : Complete tasks) (hcut : tasks = before ++ t :: after) :
    (run grammars settings language inputs { disk := d } tasks).result t.position =
      some ((d.renderAll grammars settings language
        (before.map fun t => t.input)).renderTo grammars settings language
          t.input).1 := by
  have hlast := hc.notMem_after hcut
  rw [hcut]
  exact result_run settings language (fun _ => .fresh) hlast

/-- In a complete schedule every input has been listed on some disk. -/
theorem exists_result {d : Disk} {tasks : List (Task inputs.length)} (hc : Complete tasks)
    (position : Fin inputs.length) :
    ∃ before : Disk, (run grammars settings language inputs { disk := d } tasks).result position =
      some (before.renderTo grammars settings language (inputs.get position)).1 := by
  obtain ⟨before, t, after, hcut, rfl⟩ := hc.exists_cut position
  exact ⟨_, result_of_complete grammars settings language hc hcut⟩

/-- A complete schedule has an outcome for every input. -/
theorem outcomes_eq {s : Progress inputs.length}
    {result : Fin inputs.length → Except Failure RenderedFile}
    (h : ∀ position, s.result position = some (result position)) :
    outcomes inputs s =
      (List.finRange inputs.length).map fun position => ⟨inputs.get position, result position⟩ := by
  rw [outcomes, ← List.filterMap_eq_map]
  congr
  funext position
  rw [h]
  rfl

/-! ## In the given order -/

theorem length_outcomesOf (d : Disk) (inputs : List Path) :
    (d.outcomesOf grammars settings language inputs).length = inputs.length := by
  induction inputs generalizing d with
  | nil => rfl
  | cons input rest ih => rw [Disk.outcomesOf, List.length_cons, ih, List.length_cons]

theorem getElem?_outcomesOf (d : Disk) (inputs : List Path) {i : Nat} (h : i < inputs.length) :
    (d.outcomesOf grammars settings language inputs)[i]? =
      some ⟨inputs[i], ((d.renderAll grammars settings language (inputs.take i)).renderTo grammars
        settings language inputs[i]).1⟩ := by
  induction inputs generalizing d i with
  | nil => simp at h
  | cons input rest ih =>
      cases i with
      | zero => rfl
      | succ i => exact ih _ (Nat.lt_of_succ_lt_succ h)

/-- Listing a batch is listing its inputs one after the other. -/
theorem ends_renderBatch (d : Disk) (inputs : List Path) :
    Work.Ends grammars d (Work.renderBatch grammars settings inputs language)
      (.ok (d.outcomesOf grammars settings language inputs))
      (d.renderAll grammars settings language inputs) := by
  refine Work.Ends.bind (Work.Ends.report _ _ _ _) (Work.Ends.withOwnParser ?_)
  induction inputs generalizing d with
  | nil => exact Work.Ends.pure []
  | cons input rest ih =>
      rw [List.mapM_cons]
      have hinput := Work.ends_renderToOutput grammars d settings language input
      refine Work.Ends.bind (hinput.attempt.bind (Work.Ends.pure _)) ?_
      exact (ih _).bind (Work.Ends.pure _)

theorem map_finRange (inputs : List Path) :
    (List.finRange inputs.length).map (fun position => inputs.get position) = inputs :=
  List.ext_getElem (by simp) fun i hi hi' => by simp

/-- One worker that lists the inputs in the given order. -/
def inOrder (n : Nat) : List (Task n) :=
  (List.finRange n).map fun position => ⟨position, 0⟩

theorem complete_inOrder (n : Nat) : Complete (inOrder n) := by
  have hpositions : (inOrder n).map Task.position = List.finRange n := by
    simp [inOrder, Function.comp_def]
  constructor
  · rw [hpositions]
    exact List.nodup_finRange n
  · intro position
    rw [hpositions]
    exact List.mem_finRange position

/-- Listing a batch ends as one worker that lists its inputs in order. -/
theorem run_inOrder (d : Disk) (inputs : List Path) :
    outcomes inputs (run grammars settings language inputs { disk := d } (inOrder _)) =
        d.outcomesOf grammars settings language inputs ∧
      (run grammars settings language inputs { disk := d } (inOrder _)).disk =
        d.renderAll grammars settings language inputs := by
  have hinputs : (inOrder inputs.length).map (fun t => t.input) = inputs := by
    rw [inOrder, List.map_map]
    exact map_finRange inputs
  constructor
  · have hresult : ∀ position : Fin inputs.length,
        (run grammars settings language inputs { disk := d } (inOrder inputs.length)).result
          position = some ((d.renderAll grammars settings language
            (inputs.take position)).renderTo grammars settings language
              (inputs.get position)).1 := by
      intro position
      have hlength : (inOrder inputs.length).length = inputs.length := by simp [inOrder]
      have hat : (inOrder inputs.length)[position] = ⟨position, 0⟩ := by simp [inOrder]
      have hcut : inOrder inputs.length = (inOrder inputs.length).take position ++
          ⟨position, 0⟩ :: (inOrder inputs.length).drop (position + 1) := by
        rw [← hat]
        simp
      rw [result_of_complete grammars settings language (complete_inOrder _) hcut, List.map_take,
        hinputs]
      rfl
    rw [outcomes_eq hresult]
    refine List.ext_getElem? fun i => ?_
    by_cases hi : i < inputs.length
    · rw [getElem?_outcomesOf grammars settings language d inputs hi]
      simp [hi]
    · simp [hi, length_outcomesOf]
  · rw [disk_run settings language fun _ => .fresh, hinputs]

/-- Listing a batch does what one worker does that lists its inputs in order. -/
theorem runIn_renderBatch (d : Disk) (inputs : List Path) :
    ∃ after, (Work.renderBatch grammars settings inputs language).runIn { disk := d } =
        (.ok (outcomes inputs (run grammars settings language inputs { disk := d }
          (inOrder inputs.length))), after) ∧
      after.disk = (run grammars settings language inputs { disk := d }
        (inOrder inputs.length)).disk := by
  obtain ⟨parser, log, _, hrun⟩ :=
    ends_renderBatch grammars settings language d inputs {} #[] .fresh
  obtain ⟨houtcomes, hdisk⟩ := run_inOrder grammars settings language d inputs
  exact ⟨_, by rw [houtcomes]; exact hrun, hdisk.symm⟩

/-- Listing a batch is one way in which it may end. -/
theorem mayEnd_renderBatch (d : Disk) (inputs : List Path) :
    MayEnd grammars settings language inputs d (d.outcomesOf grammars settings language inputs)
      (d.renderAll grammars settings language inputs) :=
  ⟨inOrder inputs.length, complete_inOrder _, run_inOrder grammars settings language d inputs⟩

end Facts

/-! ## A small batch -/

/-- A grammar that makes one leaf of every source text, with the text for its kind. -/
def leafGrammar : Grammar :=
  ⟨fun source => some ⟨⟨⟨source, true, false, none, ⟨0, 0⟩, ⟨0, 1⟩⟩, .nil⟩, false⟩⟩

/-- A disk with two source files in the inputs directory. -/
def sampleDisk : Disk where
  entries :=
    [([Text.bytes "inputs"], .directory),
      ([Text.bytes "inputs", Text.bytes "a.js"], .file (Text.bytes "a")),
      ([Text.bytes "inputs", Text.bytes "b.swift"], .file (Text.bytes "b"))]

theorem linkFree_sampleDisk : sampleDisk.LinkFree :=
  Disk.linkFree_of_entries (by decide)

theorem wellFormed_sampleDisk : sampleDisk.WellFormed :=
  Disk.wellFormed_of_entries (by decide) (by decide)

/-- The two source files. -/
def sampleInputs : List Path :=
  [Path.ofText "a.js", Path.ofText "b.swift"]

/-- Two workers, the second input first. -/
def sampleTasks : List (Task sampleInputs.length) :=
  [⟨⟨1, by decide⟩, 1⟩, ⟨⟨0, by decide⟩, 0⟩]

theorem complete_sampleTasks : Complete sampleTasks :=
  ⟨by decide, by decide⟩

/-- What the two workers have come to. -/
def sampleEnd : Progress sampleInputs.length :=
  run (fun _ => .ok leafGrammar) .default none sampleInputs { disk := sampleDisk } sampleTasks

end Batch

end TreeListing
