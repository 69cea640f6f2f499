import TreeListing.Proofs.Batch.Isolation
import TreeListing.Proofs.CommandLine.Ends

/-!
# Listing to the standard output and into files

Listing to the standard output and listing into files are written separately.  `Shown` says
what the first prints in terms of the second: the files that a batch has written, one after
the other, up to the first input that failed.  As long as the inputs do not meet and every
file can be written, this is what is printed (`stdout_agrees`).
-/

namespace TreeListing.CommandLine

/-- A line feed. -/
def lineFeed : UInt8 := 0x0A

/-- What the outcomes of a batch show when the files are put one after the other: the text,
and the failure that it stops at, if any.  A blank line stands above every file but the first,
and a heading if there are several inputs. -/
inductive Shown (final : Disk) (several : Bool) :
    Bool → List Outcome → Bytes → Option Failure → Prop where
  | nil (first : Bool) : Shown final several first [] [] none
  | failed (first : Bool) (input : Path) (failure : Failure) (rest : List Outcome) :
      Shown final several first (⟨input, .error failure⟩ :: rest) [] (some failure)
  | listed (first : Bool) (input : Path) {file : RenderedFile} {rest : List Outcome}
      {content text : Bytes} {failure : Option Failure}
      (hcontent : final.read file.output = .ok content)
      (hrest : Shown final several false rest text failure) :
      Shown final several first (⟨input, .ok file⟩ :: rest)
        ((if first then [] else [lineFeed])
          ++ (if several then Text.bytes ("// " ++ input.text) ++ [lineFeed] else [])
          ++ content ++ lineFeed :: text)
        failure

/-- Showing the outcomes fails unless all of them are well. -/
theorem Shown.failure_eq_none_iff {final : Disk} {several first : Bool} {ends : List Outcome}
    {text : Bytes} {failure : Option Failure} (h : Shown final several first ends text failure) :
    failure = none ↔ ∀ o ∈ ends, ∃ file, o.result = .ok file := by
  induction h with
  | nil first => simp
  | failed first input failure rest => simp
  | listed first input hcontent hrest ih => simp [ih]

theorem endedLines_cons (line : String) (lines : List String) :
    endedLines (line :: lines) = line ++ "\n" ++ endedLines lines := by
  simp [endedLines]

theorem endedLines_append (above below : List String) :
    endedLines (above ++ below) = endedLines above ++ endedLines below := by
  simp [endedLines]

/-- The bytes of the lines above a listing. -/
theorem bytes_above (first several : Bool) (input : Path) :
    Text.bytes (endedLines ((if first then [] else [""]) ++
        if several then [inputHeading false input] else [])) =
      (if first then [] else [lineFeed]) ++
        if several then Text.bytes ("// " ++ input.text) ++ [lineFeed] else [] := by
  have hempty : Text.bytes "" = [] := by decide
  have hfeed : Text.bytes "\n" = [lineFeed] := by decide
  cases first <;> cases several <;>
    simp [endedLines, inputHeading, painted, hempty, hfeed]

/-- The bytes of lines that are printed after others. -/
theorem bytes_listed (above : List String) (listing : String) (below : List String) :
    Text.bytes (endedLines (above ++ listing :: below)) =
      Text.bytes (endedLines above) ++ Text.bytes listing ++
        lineFeed :: Text.bytes (endedLines below) := by
  have hfeed : Text.bytes "\n" = [lineFeed] := by decide
  rw [endedLines_append, endedLines_cons]
  simp [hfeed]

section Modes

variable {grammars : Grammars} {settings : Settings} {language : Option Language}
  {inputs : List Path} {d : Disk}

/-- The failure of an input that is not about writing is that of listing it. -/
theorem listing_of_error {input : Path} {failure : Failure}
    (h : (d.renderTo grammars settings language input).1 = .error failure)
    (hwrite : ∀ path cause, failure ≠ .write path cause) :
    d.listing grammars (settings.inputPath input) language = .error failure := by
  rcases Disk.renderTo_cases grammars settings language d input with
    ⟨other, hlisting, hend⟩ |
      ⟨_, _, _, ⟨cause, _, _, hend⟩ | ⟨_, _, ⟨cause, _, hend⟩ | ⟨_, _, hend⟩⟩⟩
  · rw [hend, Except.error.injEq] at h
    rw [hlisting, h]
  · rw [hend, Except.error.injEq] at h
    exact absurd h.symm (hwrite _ _)
  · rw [hend, Except.error.injEq] at h
    exact absurd h.symm (hwrite _ _)
  · simp [hend] at h

/-- What is printed for inputs that can all be written is what their files show. -/
theorem shown_printed (hl : d.LinkFree) {order : List Path} {final : Disk}
    (hfinal : d.Stage grammars settings language order final) (several first : Bool)
    (hmem : ∀ input ∈ inputs, input ∈ order)
    (hwritten : ∀ input ∈ inputs, ∀ path cause,
      (d.renderTo grammars settings language input).1 ≠ .error (.write path cause)) :
    Shown final several first
      (inputs.map fun input => ⟨input, (d.renderTo grammars settings language input).1⟩)
      (Text.bytes (endedLines
        (d.printed grammars false several settings language first inputs).printed))
      (d.printed grammars false several settings language first inputs).failure := by
  induction inputs generalizing first with
  | nil => exact .nil first
  | cons input rest ih =>
      have hrest := ih false (fun x hx => hmem x (List.mem_cons_of_mem _ hx))
        (fun x hx => hwritten x (List.mem_cons_of_mem _ hx))
      rw [List.map_cons, Disk.printed]
      cases hresult : (d.renderTo grammars settings language input).1 with
      | error failure =>
          have hlisting : d.listing grammars (settings.inputPath input) language =
              .error failure :=
            listing_of_error hresult fun path cause hcause => hwritten input List.mem_cons_self
              path cause (hcause ▸ hresult)
          rw [hlisting]
          exact .failed first input failure _
      | ok file =>
          obtain ⟨lines, hlisting, hread⟩ :=
            hfinal.read_of_ok hl (hmem input List.mem_cons_self) hresult
          rw [hlisting]
          dsimp only
          have hlisted := Shown.listed first input hread hrest
          rwa [← bytes_above, ← bytes_listed] at hlisted

/-- Listing to the standard output shows what a batch writes, however the batch is scheduled,
as long as the inputs do not meet and no file fails to be written: it prints the text and ends
with the failure that the outcomes of the batch show, and so does a run of the program. -/
theorem stdout_agrees (hl : d.LinkFree) (hd : d.WellFormed) (h : Batch.Apart settings inputs d)
    {ends : List Outcome} {final : Disk}
    (hbatch : Batch.MayEnd grammars settings language inputs d ends final)
    (hwritten : ∀ o ∈ ends, ∀ path cause, o.result ≠ .error (.write path cause)) :
    ∃ text failure, Shown final (1 < inputs.length) true ends text failure ∧
      (failure = none ↔ ∀ o ∈ ends, ∃ file, o.result = .ok file) ∧
      (∃ report after, (Work.withOwnParser (printListings grammars false (1 < inputs.length)
          settings language true inputs)).runIn { disk := d } = (.ok report, after) ∧
        Text.bytes (endedLines report.printed) = text ∧ report.failure = failure) ∧
      ∀ env time arguments a, Arguments.ofBytes arguments = .ok a →
        a.stdout = true → a.inputs = inputs → env.coloursMessages = false →
        prepared d a = .ok (settings, language) →
        Text.bytes (run grammars env time arguments d).1.stdout = text ∧
          (run grammars env time arguments d).1.code = (failure.map Failure.exitCode).getD 0 := by
  obtain ⟨tasks, hc, rfl, rfl⟩ := hbatch
  rw [h.outcomes_eq hl hd hc] at hwritten ⊢
  have hstage : d.Stage grammars settings language _ _ := h.stage_run hl hd hc
  have hshown := shown_printed hl hstage (1 < inputs.length) true
    (fun input => hc.perm.mem_iff.mpr)
    (fun input hinput => hwritten _ (List.mem_map_of_mem hinput))
  refine ⟨_, _, hshown, hshown.failure_eq_none_iff, ?_, ?_⟩
  · obtain ⟨parser, log, _, hrun⟩ := Work.Ends.withOwnParser
      (ends_printListings grammars d false (1 < inputs.length) settings language true inputs)
      {} #[] .fresh
    exact ⟨_, _, hrun, rfl, rfl⟩
  · rintro env time arguments a harguments hstdout rfl hcolours hprepared
    obtain ⟨log, hrun⟩ := run_of_arguments grammars env time harguments d
    rw [hrun, hprepared, listed, if_pos hstdout, hcolours]
    exact ⟨rfl, rfl⟩

end Modes

/-- Two files are printed as two workers write them. -/
theorem stdout_agrees_sample :
    let final := Batch.run (fun _ => .ok Batch.leafGrammar) .default none Batch.sampleInputs
      { disk := Batch.sampleDisk } Batch.sampleTasks
    (∀ o ∈ Batch.outcomes Batch.sampleInputs final, o.result.isOk) ∧
      ∃ text, Shown final.disk true true (Batch.outcomes Batch.sampleInputs final) text none ∧
        ∃ report after, (Work.withOwnParser (printListings (fun _ => .ok Batch.leafGrammar) false
            true .default none true Batch.sampleInputs)).runIn { disk := Batch.sampleDisk } =
              (.ok report, after) ∧
          Text.bytes (endedLines report.printed) = text ∧ report.failure = none := by
  intro final
  have hok : ∀ o ∈ Batch.outcomes Batch.sampleInputs final, o.result.isOk := by decide +kernel
  obtain ⟨text, failure, hshown, hfailure, ⟨report, after, hrun, hprinted, hreport⟩, -⟩ :=
    stdout_agrees Batch.linkFree_sampleDisk Batch.wellFormed_sampleDisk Batch.apart_sampleInputs
      ⟨Batch.sampleTasks, Batch.complete_sampleTasks, rfl, rfl⟩
      (fun o ho path cause hcause => by
        have := hok o ho
        rw [hcause] at this
        simp [Except.isOk, Except.toBool] at this)
  obtain rfl : failure = none := hfailure.mpr fun o ho => by
    have := hok o ho
    cases hresult : o.result with
    | error failure => simp [hresult, Except.isOk, Except.toBool] at this
    | ok file => exact ⟨file, rfl⟩
  exact ⟨hok, text, hshown, report, after, hrun, hprinted, hreport⟩

end TreeListing.CommandLine
