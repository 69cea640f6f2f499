import TreeListing.Proofs.CommandLine.Frame

/-!
# What a run reports

The outcomes of a batch are reported one after the other.  A written listing is told on the
standard output and a failed input on standard error; the failure of a lone input ends the run
at once, and of several inputs the failed ones are counted, for the failure that the run ends
with.  `reportEach` is this loop.  What it has reported so far covers the outcomes that it has
seen (`Tally.Covers`), each further outcome keeps it so, and at the end this gives all that a
run says about its inputs, to the letter (`Tells`).
-/

namespace TreeListing.CommandLine

/-! ## What became of the inputs -/

/-- The inputs that were listed, each with its listing. -/
def written (ends : List Outcome) : List (Path × RenderedFile) :=
  ends.filterMap fun (o : Outcome) =>
    match o.result with
    | .ok file => some (o.requested, file)
    | .error _ => none

/-- The inputs that failed, each with the reason. -/
def failed (ends : List Outcome) : List (Path × Failure) :=
  ends.filterMap fun (o : Outcome) =>
    match o.result with
    | .ok _ => none
    | .error failure => some (o.requested, failure)

section Outcomes

variable (input : Path) (file : RenderedFile) (failure : Failure) (ends rest : List Outcome)

@[simp] theorem written_nil : written [] = [] :=
  rfl

@[simp] theorem written_ok_cons :
    written (⟨input, .ok file⟩ :: rest) = (input, file) :: written rest :=
  rfl

@[simp] theorem written_error_cons :
    written (⟨input, .error failure⟩ :: rest) = written rest :=
  rfl

@[simp] theorem written_append : written (ends ++ rest) = written ends ++ written rest :=
  List.filterMap_append

@[simp] theorem failed_nil : failed [] = [] :=
  rfl

@[simp] theorem failed_ok_cons : failed (⟨input, .ok file⟩ :: rest) = failed rest :=
  rfl

@[simp] theorem failed_error_cons :
    failed (⟨input, .error failure⟩ :: rest) = (input, failure) :: failed rest :=
  rfl

@[simp] theorem failed_append : failed (ends ++ rest) = failed ends ++ failed rest :=
  List.filterMap_append

/-- None has failed just when all are well. -/
theorem failed_eq_nil_iff : failed ends = [] ↔ ∀ o ∈ ends, o.result.isOk := by
  induction ends with
  | nil => simp
  | cons o rest ih =>
      obtain ⟨input, failure | file⟩ := o
      · simp [Except.isOk, Except.toBool]
      · rw [failed_ok_cons, ih, List.forall_mem_cons]
        exact (and_iff_right rfl).symm

/-- Each input was listed or has failed, and none both. -/
theorem perm_written_failed :
    ((written ends).map Prod.fst ++ (failed ends).map Prod.fst).Perm
      (ends.map Outcome.requested) := by
  induction ends with
  | nil => exact .nil
  | cons o rest ih =>
      obtain ⟨input, failure | file⟩ := o
      · exact List.perm_middle.trans (ih.cons input)
      · exact ih.cons input

theorem length_written_add_failed :
    (written ends).length + (failed ends).length = ends.length := by
  simpa using (perm_written_failed ends).length_eq

end Outcomes

/-! ## One outcome after the other -/

/-- What has been reported so far. -/
structure Tally where
  printed : List String := []
  complaints : List String := []
  failed : Nat := 0

/-- Report one of several outcomes. -/
def Tally.note (coloured : Bool) (t : Tally) (o : Outcome) : Tally :=
  match o.result with
  | .ok file => { t with printed := t.printed ++ [writtenLine file] }
  | .error failure =>
      { t with
        complaints := t.complaints ++ [complaintLine coloured o.requested failure]
        failed := t.failed + 1 }

/-- Report outcomes one after the other, out of a total.  The failure of a lone input ends the
report. -/
def reportEach (coloured : Bool) (total : Nat) (t : Tally) : List Outcome → Report
  | [] =>
      { printed := t.printed
        complaints := t.complaints
        failure := if t.failed = 0 then none else some (.batchFailed t.failed total) }
  | o :: rest =>
      match o.result with
      | .ok _ => reportEach coloured total (t.note coloured o) rest
      | .error failure =>
          if total = 1 then { printed := t.printed, complaints := t.complaints, failure }
          else reportEach coloured total (t.note coloured o) rest

/-- What has been reported is what there is to say about these outcomes. -/
structure Tally.Covers (coloured : Bool) (ends : List Outcome) (t : Tally) : Prop where
  printed : t.printed = (written ends).map fun w => writtenLine w.2
  complaints : t.complaints = (CommandLine.failed ends).map fun f => complaintLine coloured f.1 f.2
  failed : t.failed = (CommandLine.failed ends).length

namespace Tally.Covers

variable {coloured : Bool} {done : List Outcome} {t : Tally}

theorem nil : Covers coloured [] {} :=
  ⟨rfl, rfl, rfl⟩

/-- Reporting an outcome covers it too. -/
theorem note (h : t.Covers coloured done) (o : Outcome) :
    (t.note coloured o).Covers coloured (done ++ [o]) := by
  obtain ⟨input, failure | file⟩ := o
  · exact ⟨by simp [Tally.note, h.printed], by simp [Tally.note, h.complaints],
      by simp [Tally.note, h.failed]⟩
  · exact ⟨by simp [Tally.note, h.printed], by simp [Tally.note, h.complaints],
      by simp [Tally.note, h.failed]⟩

/-- All outcomes are reported and the failed ones are counted, unless a lone input has failed. -/
theorem reportEach_eq (h : t.Covers coloured done) {total : Nat} {rest : List Outcome}
    (hlone : total = 1 → CommandLine.failed rest = []) :
    reportEach coloured total t rest =
      { printed := (written (done ++ rest)).map fun w => writtenLine w.2
        complaints := (CommandLine.failed (done ++ rest)).map fun f =>
          complaintLine coloured f.1 f.2
        failure :=
          if (CommandLine.failed (done ++ rest)).length = 0 then none
          else some (.batchFailed (CommandLine.failed (done ++ rest)).length total) } := by
  induction rest generalizing done t with
  | nil => rw [reportEach, h.printed, h.complaints, h.failed, List.append_nil]
  | cons o rest ih =>
      rw [← List.singleton_append, ← List.append_assoc]
      obtain ⟨input, failure | file⟩ := o
      · have htotal : total ≠ 1 := fun htotal => List.cons_ne_nil _ _ (hlone htotal)
        rw [← ih (h.note _) fun h => absurd h htotal]
        exact if_neg htotal
      · exact ih (h.note _) hlone

end Tally.Covers

/-- A lone input has failed, or else all there is to say is said. -/
theorem lone_or (ends : List Outcome) :
    (∃ input failure, ends = [⟨input, .error failure⟩]) ∨ (ends.length = 1 → failed ends = []) := by
  by_cases hlone : ends.length = 1
  · obtain ⟨⟨input, failure | file⟩, rfl⟩ := List.length_eq_one_iff.mp hlone
    · exact .inl ⟨input, failure, rfl⟩
    · exact .inr fun _ => rfl
  · exact .inr fun h => absurd h hlone

/-- The report about the outcomes of a batch is that of one outcome after the other. -/
theorem reportOutcomes_eq_reportEach (coloured : Bool) (ends : List Outcome) :
    reportOutcomes coloured ends = reportEach coloured ends.length {} ends := by
  obtain ⟨input, failure, rfl⟩ | hlone := lone_or ends
  · rfl
  · -- The report puts the lines down at once, here they come from the listings.
    have hprinted : (ends.filterMap fun (o : Outcome) =>
        match o.result with
        | .ok file => some (writtenLine file)
        | .error _ => none) = (written ends).map fun w => writtenLine w.2 := by
      rw [written, List.map_filterMap]
      congr
      funext o
      cases o.result <;> rfl
    rw [Tally.Covers.nil.reportEach_eq hlone, List.nil_append]
    unfold reportOutcomes
    dsimp only
    split
    · next hnone =>
        have hfailed : failed ends = [] := hnone
        rw [hfailed]
        exact congrArg (fun lines => Report.mk lines [] none) hprinted
    · next hsome =>
        have hfailed : failed ends = _ :: _ := hsome
        have hseveral : ends.length ≠ 1 := by
          intro hone
          rw [hlone hone] at hfailed
          exact List.cons_ne_nil _ _ hfailed.symm
        rw [if_neg hseveral, if_neg (by simp [hfailed])]
        exact congrArg (fun lines => Report.mk lines _ _) hprinted

/-! ## What is said at the end -/

/-- The log lines of a run that are shown. -/
def shownLog (env : Environment) (time : String) (a : Arguments) (log : List Log.Event) :
    List String :=
  (log.filter (env.logFilter a.verbosity).shows).map (Log.Event.line env.coloursLog time)

/-- What a run says about the outcomes of its inputs, below its log. -/
structure Tells (coloured : Bool) (ends : List Outcome) (log : List String) (output : Output) :
    Prop where
  /-- Each input is told of once, as listed or as failed. -/
  once : ((written ends).map Prod.fst ++ (failed ends).map Prod.fst).Perm
    (ends.map Outcome.requested)
  count : (written ends).length + (failed ends).length = ends.length
  /-- The standard output has a line for each listing, in the order of the inputs. -/
  stdout : output.stdout = String.join ((written ends).map fun w =>
    "Parsed tree written to: " ++ w.2.output.text ++ "\n")
  /-- The run ends well just when all inputs were listed. -/
  code : output.code = 0 ↔ ∀ o ∈ ends, o.result.isOk
  /-- There is nothing to complain about if they were. -/
  well : (∀ o ∈ ends, o.result.isOk) → output.stderr = String.join (log.map (· ++ "\n"))
  /-- The failure of a lone input is that of the run, told with its causes and no bullet. -/
  lone : ∀ input failure, ends = [⟨input, .error failure⟩] →
    output.code = failure.exitCode ∧
      ∃ lines,
        lines = ((if coloured then "\x1b[1;31merror\x1b[0m" else "error") ++ ": "
            ++ failure.message)
          :: (failure.causes.map fun cause =>
            "  " ++ (if coloured then "\x1b[2mcaused by\x1b[0m" else "caused by") ++ ": "
              ++ cause) ∧
        output.stderr = String.join ((log ++ lines).map (· ++ "\n")) ∧
        ∀ line ∈ lines, ∀ rest,
          line ≠ "  " ++ (if coloured then "\x1b[31m•\x1b[0m" else "•") ++ rest
  /-- Of several inputs each that failed is told, in the order of the inputs, and then how many
  did. -/
  several : 2 ≤ ends.length → 1 ≤ (failed ends).length →
    output.code = 1 ∧
      output.stderr = String.join ((log
        ++ ((failed ends).map fun f =>
          "  " ++ (if coloured then "\x1b[31m•\x1b[0m" else "•") ++ " " ++ f.1.text ++ ": "
            ++ f.2.message)
        ++ [(if coloured then "\x1b[1;31merror\x1b[0m" else "error") ++ ": "
          ++ (toString (failed ends).length ++ " of " ++ toString ends.length
            ++ " inputs failed to render")]).map (· ++ "\n"))

theorem exitCode_ne_zero (failure : Failure) : failure.exitCode ≠ 0 := by
  cases failure <;> simp [Failure.exitCode]

section Texts

variable (coloured : Bool) (failure : Failure)

/-- The lines about written listings. -/
theorem endedLines_writtenLine (listed : List (Path × RenderedFile)) :
    endedLines (listed.map fun w => writtenLine w.2) =
      String.join (listed.map fun w =>
        "Parsed tree written to: " ++ w.2.output.text ++ "\n") := by
  rw [endedLines, List.map_map]
  rfl

/-- A text in a style is shown with the sequences around it if there are colours. -/
theorem painted_eq {style text shown : String} (h : Log.styled style text = shown) :
    painted coloured style text = if coloured then shown else text := by
  rw [painted, h]

theorem complaintLine_eq (input : Path) :
    complaintLine coloured input failure =
      "  " ++ (if coloured then "\x1b[31m•\x1b[0m" else "•") ++ " " ++ input.text ++ ": "
        ++ failure.message := by
  have hbullet : Log.styled "31" "•" = "\x1b[31m•\x1b[0m" := by decide
  rw [complaintLine, painted_eq coloured hbullet]

theorem failureLines_eq :
    failureLines coloured failure =
      ((if coloured then "\x1b[1;31merror\x1b[0m" else "error") ++ ": " ++ failure.message)
        :: failure.causes.map fun cause =>
          "  " ++ (if coloured then "\x1b[2mcaused by\x1b[0m" else "caused by") ++ ": "
            ++ cause := by
  have herror : Log.styled "1;31" "error" = "\x1b[1;31merror\x1b[0m" := by decide
  have hcausedBy : Log.styled "2" "caused by" = "\x1b[2mcaused by\x1b[0m" := by decide
  rw [failureLines, painted_eq coloured herror, painted_eq coloured hcausedBy]

variable {coloured failure}

/-- No line about a failure that a run ends with has a bullet. -/
theorem ne_bullet_of_mem_failureLines {line : String} (h : line ∈ failureLines coloured failure)
    (rest : String) :
    line ≠ "  " ++ (if coloured then "\x1b[31m•\x1b[0m" else "•") ++ rest := by
  rw [failureLines_eq, List.mem_cons, List.mem_map] at h
  obtain rfl | ⟨cause, -, rfl⟩ := h
  all_goals cases coloured <;> simp [← String.toList_inj]

end Texts

/-- Reporting the outcomes of a batch one after the other says what there is to say. -/
theorem tells_reportOutcomes (env : Environment) (time : String) (a : Arguments)
    (ends : List Outcome) (log : List Log.Event) :
    Tells env.coloursMessages ends (shownLog env time a log)
      (reportOutput env time a (reportOutcomes env.coloursMessages ends) log) := by
  rw [reportOutcomes_eq_reportEach]
  obtain ⟨input, failure, rfl⟩ | hlone := lone_or ends
  · have hsome : ¬∀ o ∈ [Outcome.mk input (.error failure)], o.result.isOk :=
      fun h => List.cons_ne_nil _ _ ((failed_eq_nil_iff _).mpr h)
    refine ⟨perm_written_failed _, length_written_add_failed _, rfl,
      iff_of_false (exitCode_ne_zero failure) hsome, fun h => absurd h hsome, ?_,
      fun h => absurd h (by simp)⟩
    rintro _ _ ⟨⟩
    refine ⟨rfl, _, failureLines_eq _ _, congrArg endedLines ?_,
      fun line hline => ne_bullet_of_mem_failureLines hline⟩
    rw [List.append_assoc]
    rfl
  · rw [Tally.Covers.nil.reportEach_eq hlone, List.nil_append]
    by_cases hnone : failed ends = []
    · have hall := (failed_eq_nil_iff ends).mp hnone
      rw [hnone]
      refine ⟨perm_written_failed _, length_written_add_failed _, endedLines_writtenLine _,
        iff_of_true rfl hall, fun _ => congrArg endedLines ?_, ?_, ?_⟩
      · simp [shownLog]
      · rintro input failure rfl
        exact absurd hnone (List.cons_ne_nil _ _)
      · exact fun _ h => absurd (hnone ▸ h) (by simp)
    · have hsome := mt (failed_eq_nil_iff ends).mpr hnone
      rw [if_neg (mt List.length_eq_zero_iff.mp hnone)]
      refine ⟨perm_written_failed _, length_written_add_failed _, endedLines_writtenLine _,
        iff_of_false Nat.one_ne_zero hsome, fun h => absurd h hsome, ?_,
        fun _ _ => ⟨rfl, congrArg endedLines ?_⟩⟩
      · rintro input failure rfl
        exact absurd (hlone rfl) hnone
      · have hcomplaints : ((failed ends).map fun f =>
            complaintLine env.coloursMessages f.1 f.2) = _ :=
          List.map_congr_left fun f _ => complaintLine_eq env.coloursMessages f.2 f.1
        rw [← hcomplaints]
        exact congrArg _ (failureLines_eq env.coloursMessages _)

/-! ## Two small outputs -/

/-- The first source file of the small disk and its listing. -/
def listedSample : Path × RenderedFile :=
  (Path.ofText "a.js",
    ⟨Path.ofText "/inputs/a.js", .javascript, Path.ofText "/outputs/a_tree.txt", 1⟩)

/-- An input that is not there. -/
def goneSample : Path × Failure :=
  (Path.ofText "gone.js", .inputNotFound (Path.ofText "/inputs/gone.js"))

/-- What a run says when the one is listed and the other is not. -/
def goneOutput : Output where
  code := 1
  stdout := "Parsed tree written to: /outputs/a_tree.txt\n"
  stderr := "  • gone.js: input file not found: /inputs/gone.js\n" ++
    "error: 1 of 2 inputs failed to render\n"

theorem eq_goneOutput {ends : List Outcome} {output : Output} (h : Tells false ends [] output)
    (hwritten : written ends = [listedSample]) (hfailed : failed ends = [goneSample]) :
    output = goneOutput := by
  have hlength : ends.length = 2 := by
    rw [← h.count, hwritten, hfailed]
    rfl
  have hstdout := h.stdout
  obtain ⟨hcode, hstderr⟩ := h.several hlength.ge (by rw [hfailed]; exact le_rfl)
  rw [hwritten] at hstdout
  rw [hfailed, hlength] at hstderr
  obtain ⟨code, stdout, stderr⟩ := output
  obtain rfl : code = 1 := hcode
  obtain rfl : stdout = _ := hstdout
  obtain rfl : stderr = _ := hstderr
  decide +kernel

/-- A disk with a source file that is not a text. -/
def brokenDisk : Disk where
  entries :=
    [([Text.bytes "inputs"], .directory),
      ([Text.bytes "inputs", Text.bytes "bad.js"], .file [0xff])]

/-- That source file, which cannot be read. -/
def brokenSample : Path × Failure :=
  (Path.ofText "bad.js", .read (Path.ofText "/inputs/bad.js") .notText)

/-- What a run says when it is the only input. -/
def brokenOutput : Output where
  code := 3
  stdout := ""
  stderr := "error: failed to read input file /inputs/bad.js\n" ++
    "  caused by: stream did not contain valid UTF-8\n"

theorem eq_brokenOutput {ends : List Outcome} {output : Output} (h : Tells false ends [] output)
    (hwritten : written ends = []) (hfailed : failed ends = [brokenSample]) :
    output = brokenOutput := by
  have hlength : ends.length = 1 := by
    rw [← h.count, hwritten, hfailed]
    rfl
  obtain ⟨⟨input, failure | file⟩, rfl⟩ := List.length_eq_one_iff.mp hlength
  · obtain ⟨rfl, rfl⟩ : input = brokenSample.1 ∧ failure = brokenSample.2 :=
      Prod.mk.inj (List.singleton_inj.mp hfailed)
    obtain ⟨hcode, _, rfl, hstderr, -⟩ := h.lone _ _ rfl
    have hstdout := h.stdout
    rw [hwritten] at hstdout
    obtain ⟨code, stdout, stderr⟩ := output
    obtain rfl : code = _ := hcode
    obtain rfl : stdout = _ := hstdout
    obtain rfl : stderr = _ := hstderr
    decide +kernel
  · exact absurd hfailed (List.cons_ne_nil _ _).symm

/-- What a run that shows no log lines tells of, from what its batch has come to. -/
theorem exists_tells {grammars : Grammars} {d : Disk} {a : Arguments} {settings : Settings}
    {language : Option Language} {output : Output} (listed : List (Path × RenderedFile))
    (bad : List (Path × Failure))
    (htells : ∃ found ends after,
      (prepare (Disk.pathOf d.workingDirectory) a).runIn { disk := d } =
        (.ok (settings, language), found) ∧
      (Work.renderBatch grammars settings a.inputs language).runIn found = (.ok ends, after) ∧
      ends.map Outcome.requested = a.inputs ∧
      Tells false ends (shownLog (fun _ => none) "" a after.log.toList) output)
    (hbatch : ∀ batch, batch = (Work.renderBatch grammars settings a.inputs language).runIn
        ((prepare (Disk.pathOf d.workingDirectory) a).runIn { disk := d }).2 →
      batch.1.toOption.map written = some listed ∧ batch.1.toOption.map failed = some bad ∧
        shownLog (fun _ => none) "" a batch.2.log.toList = []) :
    ∃ ends, written ends = listed ∧ failed ends = bad ∧ Tells false ends [] output := by
  obtain ⟨found, ends, after, hfound, hends, -, htells⟩ := htells
  rw [hfound, hends] at hbatch
  obtain ⟨hlisted, hbad, hlog⟩ := hbatch _ rfl
  rw [hlog] at htells
  exact ⟨ends, Option.some.inj hlisted, Option.some.inj hbad, htells⟩

/-! ## The whole run -/

/-- Listing inputs into files reports the outcomes that the batch returns. -/
theorem runIn_listInputs {grammars : Grammars} (coloured : Bool) {base : Path} {a : Arguments}
    {settings : Settings} {language : Option Language} {w found after : Workspace}
    {ends : List Outcome} (hfiles : a.stdout = false)
    (hfound : (prepare base a).runIn w = (.ok (settings, language), found))
    (hbatch : (Work.renderBatch grammars settings a.inputs language).runIn found =
      (.ok ends, after)) :
    (listInputs grammars coloured base a).runIn w =
      (.ok (reportOutcomes coloured ends), after) := by
  have hattempt : (prepare base a).attempt.runIn w = (.ok (.ok (settings, language)), found) := by
    rw [Work.runIn_attempt, hfound]
  rw [listInputs, Work.runIn_bind_of_ok hattempt]
  dsimp only
  rw [hfiles, if_neg Bool.false_ne_true, Work.runIn_bind_of_ok hbatch]
  rfl

/-- A run that lists its inputs into files, with settings and a language that are found, tells
of the outcomes that its batch has returned.  However the batch is scheduled, its outcomes are
those of the inputs in their order, and what a run reports about them tells of each. -/
theorem run_tells (grammars : Grammars) (env : Environment) (time : String)
    {arguments : List Bytes} {a : Arguments} {d : Disk} {settings : Settings}
    {language : Option Language} (harguments : Arguments.ofBytes arguments = .ok a)
    (hfiles : a.stdout = false) (hprepared : prepared d a = .ok (settings, language)) :
    (∃ found ends after,
      (prepare (Disk.pathOf d.workingDirectory) a).runIn { disk := d } =
        (.ok (settings, language), found) ∧
      (Work.renderBatch grammars settings a.inputs language).runIn found = (.ok ends, after) ∧
      ends.map Outcome.requested = a.inputs ∧
      Tells env.coloursMessages ends (shownLog env time a after.log.toList)
        (run grammars env time arguments d).1) ∧
    ∀ ends final log, Batch.MayEnd grammars settings language a.inputs d ends final →
      ends.map Outcome.requested = a.inputs ∧
      (∀ o ∈ ends, ∀ file, o.result = .ok file → file.output = settings.outputPath o.requested) ∧
      Tells env.coloursMessages ends (shownLog env time a log)
        (reportOutput env time a (reportOutcomes env.coloursMessages ends) log) := by
  constructor
  · obtain ⟨parser, log, hfollows, hfound⟩ := ends_prepared grammars d a {} #[] .fresh
    rw [hprepared] at hfound
    obtain ⟨_, _, -, hbatch⟩ :=
      Batch.ends_renderBatch grammars settings language d a.inputs parser log hfollows
    have hends := Batch.mayEnd_renderBatch grammars settings language d a.inputs
    refine ⟨_, _, _, hfound, hbatch, (Batch.requested_of_mayEnd hends).1, ?_⟩
    rw [run, harguments]
    dsimp only
    rw [runIn_listInputs env.coloursMessages hfiles hfound hbatch]
    exact tells_reportOutcomes env time a _ _
  · intro ends final log hends
    obtain ⟨hrequested, houtputs⟩ := Batch.requested_of_mayEnd hends
    exact ⟨hrequested, houtputs, tells_reportOutcomes env time a ends log⟩

/-- One of two inputs is not there: a run tells of both, and ends with how many have failed.  A
lone input that cannot be read is told with the cause. -/
theorem run_tells_sample :
    let grammars : Grammars := fun _ => .ok Batch.leafGrammar
    let a : Arguments := { inputs := [listedSample.1, goneSample.1] }
    let lone : Arguments := { inputs := [brokenSample.1] }
    (Arguments.ofBytes [Text.bytes "a.js", Text.bytes "gone.js"] = .ok a ∧
      prepared Batch.sampleDisk a = .ok (rootSettings, none) ∧
      (run grammars (fun _ => none) "" [Text.bytes "a.js", Text.bytes "gone.js"]
        Batch.sampleDisk).1 = goneOutput ∧
      ∃ ends final, Batch.MayEnd grammars rootSettings none a.inputs Batch.sampleDisk ends final ∧
        reportOutput (fun _ => none) "" a (reportOutcomes false ends) [] = goneOutput) ∧
    Arguments.ofBytes [Text.bytes "bad.js"] = .ok lone ∧
      prepared brokenDisk lone = .ok (rootSettings, none) ∧
      (run grammars (fun _ => none) "" [Text.bytes "bad.js"] brokenDisk).1 = brokenOutput := by
  intro grammars a lone
  have ha : Arguments.ofBytes [Text.bytes "a.js", Text.bytes "gone.js"] = .ok a := by
    decide +kernel
  have hprepared : prepared Batch.sampleDisk a = .ok (rootSettings, none) := by decide +kernel
  have hlone : Arguments.ofBytes [Text.bytes "bad.js"] = .ok lone := by decide +kernel
  have hprepared' : prepared brokenDisk lone = .ok (rootSettings, none) := by decide +kernel
  obtain ⟨htells, hmayEnd⟩ := run_tells grammars (fun _ => none) "" ha rfl hprepared
  obtain ⟨htells', -⟩ := run_tells grammars (fun _ => none) "" hlone rfl hprepared'
  obtain ⟨_, hwritten, hfailed, htold⟩ := exists_tells [listedSample] [goneSample] htells
    (by rintro _ rfl; decide +kernel)
  obtain ⟨_, hnone, hbroken, htold'⟩ := exists_tells [] [brokenSample] htells'
    (by rintro _ rfl; decide +kernel)
  have hends := Batch.mayEnd_renderBatch grammars rootSettings none Batch.sampleDisk a.inputs
  have hreport := eq_goneOutput (hmayEnd _ _ [] hends).2.2 (by decide +kernel) (by decide +kernel)
  exact ⟨⟨ha, hprepared, eq_goneOutput htold hwritten hfailed, _, _, hends, hreport⟩,
    hlone, hprepared', eq_brokenOutput htold' hnone hbroken⟩

end TreeListing.CommandLine
