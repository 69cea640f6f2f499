import TreeListing.Proofs.Work.History

/-!
# Listing one input, stage by stage

Listing an input into its file looks for the file, chooses a language, reads the text, parses
it, makes the outputs directory and writes.  `listing_stages` says which stage it gets to, from
what the disk holds.  It leaves everything as it is if it fails before parsing
(`runIn_renderToOutput_early`), and writes no file when it fails later (`changes_of_error`).

An input that has been listed is still there.  Its listing lies elsewhere, since no listing has
the name of its input (`location_ne_output`).  `renderToOutput_stages` is the result.
-/

namespace TreeListing

/-! ## Which stage is reached -/

theorem chosenLanguage_cases (path : Path) (language : Option Language) :
    ((language = none ∧ Language.ofPath? path = none) ∧
      chosenLanguage path language = .error (Language.noGrammar path)) ∨
    ¬ (language = none ∧ Language.ofPath? path = none) ∧
      ∃ found, chosenLanguage path language = .ok found := by
  cases language with
  | some language => exact .inr ⟨fun h => Option.some_ne_none _ h.1, language, rfl⟩
  | none =>
      unfold chosenLanguage Language.ofPath
      cases Language.ofPath? path with
      | none => exact .inl ⟨⟨rfl, rfl⟩, rfl⟩
      | some found => exact .inr ⟨fun h => Option.some_ne_none _ h.2, found, rfl⟩

/-- Parsing fails only by the parser. -/
theorem listingOf_cases (grammars : Grammars) (source : String) (language : Language) :
    (∃ what, listingOf grammars source language = .error (.parser what)) ∨
      ∃ lines, listingOf grammars source language = .ok lines := by
  rw [listingOf, parsed]
  cases grammars language with
  | error reason => exact .inl ⟨_, rfl⟩
  | ok grammar =>
      dsimp only
      cases grammar.parse source with
      | none => exact .inl ⟨_, rfl⟩
      | some parse => exact .inr ⟨_, rfl⟩

namespace Disk

variable {grammars : Grammars} {settings : Settings} {language : Option Language} {d after : Disk}
  {input path : Path} {failure : Failure}

/-- The stages of listing a file: there is no file, no language, no text, or it is parsed. -/
theorem listing_stages (grammars : Grammars) (d : Disk) (path : Path)
    (language : Option Language) :
    (d.isFile path = false ∧
      d.listing grammars path language = .error (.inputNotFound path)) ∨
    (d.isFile path = true ∧ (language = none ∧ Language.ofPath? path = none) ∧
      d.listing grammars path language = .error (Language.noGrammar path)) ∨
    (d.isFile path = true ∧ ¬ (language = none ∧ Language.ofPath? path = none) ∧
      (∃ content, d.read path = .ok content ∧ Text.ofBytes? content = none) ∧
      d.listing grammars path language = .error (.read path .notText)) ∨
    d.isFile path = true ∧ ¬ (language = none ∧ Language.ofPath? path = none) ∧
      (¬ ∃ content, d.read path = .ok content ∧ Text.ofBytes? content = none) ∧
      ((∃ what, d.listing grammars path language = .error (.parser what)) ∨
        ∃ found, d.listing grammars path language = .ok found) := by
  rw [isFile_eq, listing]
  cases hcontent : d.content? path with
  | none => exact .inl ⟨rfl, rfl⟩
  | some content =>
      refine .inr ?_
      dsimp only
      rcases chosenLanguage_cases path language with ⟨hnone, hchosen⟩ | ⟨hsome, found, hchosen⟩
      · rw [hchosen]
        exact .inl ⟨rfl, hnone, rfl⟩
      · rw [hchosen, read_of_content? hcontent]
        refine .inr ?_
        simp only [Option.isSome_some, bind, Except.bind, true_and, Except.ok.injEq,
          exists_eq_left']
        cases htext : Text.ofBytes? content with
        | none => exact .inl ⟨hsome, rfl, rfl⟩
        | some source =>
            refine .inr ⟨hsome, by simp, ?_⟩
            rcases listingOf_cases grammars source found with ⟨what, hlines⟩ | ⟨lines, hlines⟩
            · exact .inl ⟨what, by simp only [hlines]⟩
            · exact .inr ⟨(found, lines), by simp only [hlines]; rfl⟩

/-! ## How it ends -/

/-- Listing an input fails as listing its source fails, with the disk as it was, or as saving
the listing fails. -/
theorem renderTo_error (h : d.renderTo grammars settings language input = (.error failure, after)) :
    (d.listing grammars (settings.inputPath input) language = .error failure ∧ after = d) ∨
      ∃ lines, d.save lines (settings.outputPath input) = (.error failure, after) := by
  unfold renderTo at h
  split at h
  · next hlisting =>
      obtain ⟨herror, rfl⟩ := Prod.mk.inj h
      exact .inl ⟨hlisting.trans (congrArg _ (Except.error.inj herror)), rfl⟩
  · next found lines hlisting =>
      rw [writeListing_eq_save] at h
      split at h
      · next hsave =>
          obtain ⟨herror, rfl⟩ := Prod.mk.inj h
          rw [Except.error.inj herror] at hsave
          exact .inr ⟨lines, hsave⟩
      · simp at h

/-- An input that has been listed has been saved, and listing it is the same on every disk
where its source is listed and saved alike. -/
theorem renderTo_saved {file : RenderedFile}
    (h : d.renderTo grammars settings language input = (.ok file, after)) :
    ∃ lines, d.listing grammars (settings.inputPath input) language = .ok (file.language, lines) ∧
      d.save lines (settings.outputPath input) = (.ok (), after) ∧
      file = ⟨settings.inputPath input, file.language, settings.outputPath input, lines.length⟩ ∧
      ∀ now again : Disk,
        now.listing grammars (settings.inputPath input) language = .ok (file.language, lines) →
        now.save lines (settings.outputPath input) = (.ok (), again) →
        now.renderTo grammars settings language input = (.ok file, again) := by
  unfold renderTo at h
  split at h
  · simp at h
  · next found lines hlisting =>
      rw [writeListing_eq_save] at h
      split at h
      · simp at h
      · next hsave =>
          obtain ⟨hfile, rfl⟩ := Prod.mk.inj h
          obtain rfl := Except.ok.inj hfile
          refine ⟨lines, hlisting, hsave, rfl, fun now again hnow hagain => ?_⟩
          rw [renderTo, hnow]
          dsimp only
          rw [writeListing_eq_save, hagain]

/-- Once its source is listed, an input is listed or cannot be written. -/
theorem renderTo_of_listing {found : Language × List String}
    (h : d.listing grammars (settings.inputPath input) language = .ok found) :
    (∃ p cause, (d.renderTo grammars settings language input).1 = .error (.write p cause)) ∨
      ∃ file, (d.renderTo grammars settings language input).1 = .ok file := by
  rcases renderTo_cases grammars settings language d input with
    ⟨failure, hlisting, _⟩ | ⟨_, lines, _, ⟨cause, made, _, hend⟩ |
      ⟨made, _, ⟨cause, _, hend⟩ | ⟨written, _, hend⟩⟩⟩
  · simp [h] at hlisting
  · exact .inl ⟨_, cause, by rw [hend]⟩
  · exact .inl ⟨_, cause, by rw [hend]⟩
  · exact .inr ⟨_, by rw [hend]⟩

/-- When listing an input fails, no file has changed. -/
theorem changes_of_error
    (h : d.renderTo grammars settings language input = (.error failure, after)) :
    Changes (after.Above (settings.outputPath input)) nowhere d after := by
  rcases renderTo_error h with ⟨-, rfl⟩ | ⟨lines, hsave⟩
  · exact .refl _ _ after
  · exact (save_error hsave).2

/-- No listing is written over its source. -/
theorem location_ne_output (hl : d.LinkFree) {l : Location} {content : Bytes}
    (h : d.locate .use (settings.inputPath input) = .ok ⟨l, some (.file content)⟩) :
    l ≠ d.target (settings.outputPath input) := by
  obtain ⟨name, above, hlast, hinert, hup, rfl⟩ := (locate_eq_ok_iff.mp h).2.exists_name hl
  rw [Settings.inputPath, Path.getLast?_split_join] at hlast
  have hname := Path.name?_of_getLast?_split hlast hinert hup
  rw [target_outputPath]
  intro hsame
  have hend := congrArg List.getLast? hsame
  rw [List.getLast?_concat, List.getLast?_concat, Option.some.injEq] at hend
  exact Settings.outputName_ne hname hend.symm

/-- An input that has been listed is still there, and its listing is elsewhere. -/
theorem kept_of_renderTo_ok (hl : d.LinkFree) {file : RenderedFile}
    (h : d.renderTo grammars settings language input = (.ok file, after)) :
    ∃ source lines l m, d.locate .use file.input = .ok ⟨l, some (.file (Text.bytes source))⟩ ∧
      after.locate .use file.input = .ok ⟨l, some (.file (Text.bytes source))⟩ ∧
      after.locate .use file.output = .ok ⟨m, some (.file (Text.bytes (joinLines lines)))⟩ ∧
      l ≠ m ∧ listingOf grammars source file.language = .ok lines ∧
      file.lineCount = lines.length := by
  obtain ⟨lines, hlisting, hsave, hfile, -⟩ := renderTo_saved h
  obtain ⟨source, hcontent, -, hlines⟩ := listing_ok hlisting
  obtain ⟨m, hout, -, hchanges, -⟩ := save_ok hsave
  obtain ⟨l, hin⟩ := content?_eq_some_iff.mp hcontent
  have hm : m = d.target (settings.outputPath input) := by
    have htarget := (target_of_locate (hchanges.linkFree hl) hout).1
    rwa [hchanges.target] at htarget
  have hapart : l ≠ m := hm ▸ location_ne_output hl hin
  have hthere : d.get? l = some (.file (Text.bytes source)) := by
    rcases entry_of_locate_eq_ok hin with hdirectory | hentry
    · simp at hdirectory
    · exact hentry.symm
  have hkept : after.get? l = some (.file (Text.bytes source)) :=
    (hchanges.file_iff hapart _).mpr hthere
  have hin' := hchanges.locate hin
  rw [Place.on, if_neg (by simp), hkept] at hin'
  rw [hfile] at hlines ⊢
  exact ⟨source, lines, l, m, hin, hin', hout, hapart, hlines, rfl⟩

/-- Listing an input again ends in the same way and changes nothing. -/
theorem renderTo_again (hl : d.LinkFree) {file : RenderedFile}
    (h : d.renderTo grammars settings language input = (.ok file, after)) :
    ∃ again, after.renderTo grammars settings language input = (.ok file, again) ∧
      Same after again := by
  obtain ⟨lines, hlisting, hsave, hfile, hrenders⟩ := renderTo_saved h
  obtain ⟨_, _, _, _, again, hagain, hsame⟩ := save_ok hsave
  obtain ⟨source, _, l, _, hin, hin', -⟩ := kept_of_renderTo_ok hl h
  have hinput : file.input = settings.inputPath input := by rw [hfile]
  rw [hinput] at hin hin'
  have hlisting' : after.listing grammars (settings.inputPath input) language =
      .ok (file.language, lines) := by
    rw [← hlisting, listing, listing, content?_eq_some_iff.mpr ⟨l, hin⟩,
      content?_eq_some_iff.mpr ⟨l, hin'⟩]
  exact ⟨again, hrenders after again hlisting' hagain, hsame⟩

end Disk

/-! ## The run -/

namespace Work

variable {grammars : Grammars} {failure : Failure}

/-- Work that fails before parsing leaves everything as it is. -/
theorem runIn_renderFile_early {path : Path} {language : Option Language} {w : Workspace}
    (hearly : failure.BeforeParsing)
    (h : w.disk.listing grammars path language = .error failure) :
    (renderFile grammars path language).runIn w = (.error failure, w) := by
  rw [renderFile, runIn_bind_of_ok (runIn_disk _), Disk.isFile_eq]
  rw [Disk.listing] at h
  cases hcontent : w.disk.content? path with
  | none =>
      rw [hcontent] at h
      obtain rfl := Except.error.inj h
      rfl
  | some content =>
      rw [hcontent] at h
      dsimp only [Option.isSome_some, Bool.not_true] at h ⊢
      rw [if_neg (by simp), runIn_bind, runIn_chooseLanguage]
      cases hchosen : chosenLanguage path language with
      | error reason =>
          rw [hchosen] at h
          obtain rfl := Except.error.inj h
          rfl
      | ok found =>
          rw [hchosen] at h
          dsimp only
          rw [runIn_bind_of_ok (runIn_disk _), Disk.readText_of_content? hcontent]
          simp only [bind, Except.bind] at h
          cases htext : Text.ofBytes? content with
          | none =>
              rw [htext] at h
              obtain rfl := Except.error.inj h
              rfl
          | some source =>
              rw [htext] at h
              -- what fails now is the parser
              rcases listingOf_cases grammars source found with ⟨what, hlines⟩ | ⟨lines, hlines⟩
              · simp only [hlines, Except.error.injEq] at h
                subst h
                cases hearly
              · simp [hlines] at h
                cases h

theorem runIn_renderToOutput_early {settings : Settings} {input : Path}
    {language : Option Language} {w : Workspace} (hearly : failure.BeforeParsing)
    (h : w.disk.listing grammars (settings.inputPath input) language = .error failure) :
    (renderToOutput grammars settings input language).runIn w = (.error failure, w) := by
  rw [renderToOutput, runIn_bind, runIn_renderFile_early hearly h]

/-- How listing an input into its file ends, stage by stage. -/
structure Stages (grammars : Grammars) (settings : Settings) (input : Path)
    (language : Option Language) (before : Workspace) (result : Except Failure RenderedFile)
    (after : Workspace) : Prop where
  inputNotFound : (∃ p, result = .error (.inputNotFound p)) ↔
    before.disk.isFile (settings.inputPath input) = false
  unsupportedLanguage : before.disk.isFile (settings.inputPath input) = true →
    ((∃ what, result = .error (.unsupportedLanguage what)) ↔
      language = none ∧ Language.ofPath? (settings.inputPath input) = none)
  read : before.disk.isFile (settings.inputPath input) = true →
    ¬ (language = none ∧ Language.ofPath? (settings.inputPath input) = none) →
    ((∃ p cause, result = .error (.read p cause)) ↔
      ∃ content, before.disk.read (settings.inputPath input) = .ok content ∧
        Text.ofBytes? content = none)
  /-- In these three cases nothing has changed. -/
  untouched : ∀ failure : Failure, failure.BeforeParsing → result = .error failure →
    after.disk = before.disk ∧ after.parser = before.parser
  /-- In no case of failure a file has changed. -/
  unwritten : ∀ failure, result = .error failure →
    Disk.Changes (after.disk.Above (settings.outputPath input)) Disk.nowhere
      before.disk after.disk
  /-- The source is as it was, and the listing is in a file of its own. -/
  written : ∀ file, result = .ok file →
    file.input = settings.inputPath input ∧ file.output = settings.outputPath input ∧
    ∃ source lines l m,
      before.disk.locate .use file.input = .ok ⟨l, some (.file (Text.bytes source))⟩ ∧
      after.disk.locate .use file.input = .ok ⟨l, some (.file (Text.bytes source))⟩ ∧
      after.disk.locate .use file.output = .ok ⟨m, some (.file (Text.bytes (joinLines lines)))⟩ ∧
      l ≠ m ∧ after.disk.read file.output = .ok (Text.bytes (joinLines lines)) ∧
      ((render grammars source file.language).runIn {}).1 = .ok lines ∧
      file.lineCount = lines.length
  /-- Again it ends in the same way, and changes nothing. -/
  again : ∀ file, result = .ok file → ∃ again,
    (renderToOutput grammars settings input language).runIn after = (.ok file, again) ∧
      Disk.Same after.disk again.disk

/-- A result tells the stage that it comes from. -/
theorem reached_of_listing {d : Disk} {path : Path} {language : Option Language}
    {result : Except Failure RenderedFile}
    (hfails : ∀ failure : Failure, d.listing grammars path language = .error failure →
      result = .error failure)
    (hends : ∀ found, d.listing grammars path language = .ok found →
      (∃ p cause, result = .error (.write p cause)) ∨ ∃ file, result = .ok file) :
    ((∃ p, result = .error (.inputNotFound p)) ↔ d.isFile path = false) ∧
    (d.isFile path = true → ((∃ what, result = .error (.unsupportedLanguage what)) ↔
      language = none ∧ Language.ofPath? path = none)) ∧
    (d.isFile path = true → ¬ (language = none ∧ Language.ofPath? path = none) →
      ((∃ p cause, result = .error (.read p cause)) ↔
        ∃ content, d.read path = .ok content ∧ Text.ofBytes? content = none)) := by
  obtain ⟨what, hwhat⟩ : ∃ what, Language.noGrammar path = .unsupportedLanguage what := ⟨_, rfl⟩
  rcases Disk.listing_stages grammars d path language with ⟨hfile, hlisting⟩ |
    ⟨hfile, hnone, hlisting⟩ | ⟨hfile, hsome, hbad, hlisting⟩ | ⟨hfile, hsome, hgood, hlate⟩
  · simp [hfile, hfails _ hlisting]
  · simp [hfile, hnone, hfails _ hlisting, hwhat]
  · refine ⟨?_, fun _ => ?_, fun _ _ => iff_of_true ⟨_, _, hfails _ hlisting⟩ hbad⟩
    · simp [hfile, hfails _ hlisting]
    · exact iff_of_false (by simp [hfails _ hlisting]) hsome
  · have hother : (∃ what, result = .error (.parser what)) ∨
        (∃ p cause, result = .error (.write p cause)) ∨ ∃ file, result = .ok file := by
      rcases hlate with ⟨what, hlisting⟩ | ⟨found, hlisting⟩
      · exact .inl ⟨what, hfails _ hlisting⟩
      · exact .inr (hends found hlisting)
    refine ⟨iff_of_false ?_ (by simp [hfile]), fun _ => iff_of_false ?_ hsome,
      fun _ _ => iff_of_false ?_ hgood⟩
    all_goals rcases hother with ⟨_, rfl⟩ | ⟨_, _, rfl⟩ | ⟨_, rfl⟩ <;> simp

/-- Listing one input into its file goes through its stages on every disk without links, with
every parser that has only been used with the grammars. -/
theorem renderToOutput_stages (grammars : Grammars) (settings : Settings) (input : Path)
    (language : Option Language) {w : Workspace} (hl : w.disk.LinkFree)
    (hparser : w.parser.Follows grammars) :
    let run := (renderToOutput grammars settings input language).runIn w
    Stages grammars settings input language w run.1 run.2 := by
  intro run
  obtain ⟨parser, log, hparser', hrun⟩ :=
    ends_renderToOutput grammars w.disk settings language input w.parser w.log hparser
  have hrun : run = ((w.disk.renderTo grammars settings language input).1,
      ⟨(w.disk.renderTo grammars settings language input).2, parser, log⟩) := hrun
  have hresult := congrArg Prod.fst hrun
  have hdisk := congrArg (fun r => r.2.disk) hrun
  dsimp only at hresult hdisk
  have hfails : ∀ failure : Failure,
      w.disk.listing grammars (settings.inputPath input) language = .error failure →
      run.1 = .error failure := by
    intro failure hlisting
    rw [hresult, Disk.renderTo, hlisting]
  have hends : ∀ found, w.disk.listing grammars (settings.inputPath input) language = .ok found →
      (∃ p cause, run.1 = .error (.write p cause)) ∨ ∃ file, run.1 = .ok file := by
    intro found hlisting
    rw [hresult]
    exact Disk.renderTo_of_listing hlisting
  have hstage := reached_of_listing hfails hends
  refine ⟨hstage.1, hstage.2.1, hstage.2.2, ?_, ?_, ?_, ?_⟩
  · intro failure hearly herror
    rw [hresult] at herror
    rcases Disk.renderTo_error (Prod.ext herror rfl) with ⟨hlisting, -⟩ | ⟨lines, hsave⟩
    · have hsame : run = (.error failure, w) := runIn_renderToOutput_early hearly hlisting
      rw [hsame]
      exact ⟨rfl, rfl⟩
    · -- what cannot be saved has been parsed
      rcases (Disk.save_error hsave).1 with ⟨_, _, rfl, _⟩ | ⟨_, rfl, _⟩ <;> cases hearly
  · intro failure herror
    rw [hresult] at herror
    rw [hdisk]
    exact Disk.changes_of_error (Prod.ext herror rfl)
  · intro file hfile
    rw [hresult] at hfile
    obtain ⟨_, _, _, _, _, hinput, houtput, _⟩ := Disk.renderTo_ok (Prod.ext hfile rfl)
    obtain ⟨source, lines, l, m, hin, hin', hout, hapart, hlines, hcount⟩ :=
      Disk.kept_of_renderTo_ok hl (Prod.ext hfile rfl)
    obtain ⟨_, _, -, hrender⟩ := ends_render grammars {} source file.language {} #[] .fresh
    rw [hlines] at hrender
    rw [hdisk]
    exact ⟨hinput, houtput, source, lines, l, m, hin, hin', hout, hapart,
      Disk.read_of_content? (Disk.content?_eq_some_iff.mpr ⟨m, hout⟩), congrArg Prod.fst hrender,
      hcount⟩
  · intro file hfile
    rw [hresult] at hfile
    obtain ⟨again, hagain, hsame⟩ := Disk.renderTo_again hl (Prod.ext hfile rfl)
    obtain ⟨parser'', log', -, hrun'⟩ :=
      ends_renderToOutput grammars (w.disk.renderTo grammars settings language input).2 settings
        language input parser log hparser'
    rw [hagain] at hrun'
    refine ⟨⟨again, parser'', log'⟩, ?_, ?_⟩
    · rw [hrun]
      exact hrun'
    · rw [hdisk]
      exact hsame

/-- The first source file of a small disk is listed into a file of its own and is left as it is;
a file that is not there changes nothing. -/
theorem renderToOutput_stages_sample :
    let grammars : Grammars := fun _ => .ok Batch.leafGrammar
    let w : Workspace := { disk := Batch.sampleDisk }
    let run := (renderToOutput grammars .default (Path.ofText "a.js") none).runIn w
    let missing := (renderToOutput grammars .default (Path.ofText "c.js") none).runIn w
    Batch.sampleDisk.LinkFree ∧ w.parser.Follows grammars ∧
      (∃ file lines, run.1 = .ok file ∧ file.lineCount = 1 ∧ lines.length = 1 ∧
        run.2.disk.read file.output = .ok (Text.bytes (joinLines lines)) ∧
        ∃ again, (renderToOutput grammars .default (Path.ofText "a.js") none).runIn run.2 =
          (.ok file, again) ∧ Disk.Same run.2.disk again.disk) ∧
      (∃ p, missing.1 = .error (.inputNotFound p)) ∧ missing.2.disk = Batch.sampleDisk := by
  intro grammars w run missing
  have hfile : (Batch.sampleDisk.renderTo grammars .default none (Path.ofText "a.js")).1 =
      .ok ⟨Path.ofText "inputs/a.js", .javascript, Path.ofText "outputs/a_tree.txt", 1⟩ := by
    decide +kernel
  have hnone : Batch.sampleDisk.isFile (Settings.default.inputPath (Path.ofText "c.js")) =
      false := by
    decide +kernel
  obtain ⟨_, _, -, hrun⟩ := ends_renderToOutput grammars Batch.sampleDisk .default none
    (Path.ofText "a.js") {} #[] .fresh
  have hok : run.1 = _ := (congrArg Prod.fst hrun).trans hfile
  have hstages := renderToOutput_stages grammars .default (Path.ofText "a.js") none
    (w := w) Batch.linkFree_sampleDisk .fresh
  have hmissing := renderToOutput_stages grammars .default (Path.ofText "c.js") none
    (w := w) Batch.linkFree_sampleDisk .fresh
  obtain ⟨_, _, _, lines, _, _, _, _, _, _, hread, _, hcount⟩ := hstages.written _ hok
  obtain ⟨p, hp⟩ := hmissing.inputNotFound.mpr hnone
  exact ⟨Batch.linkFree_sampleDisk, .fresh,
    ⟨_, lines, hok, rfl, hcount.symm, hread, hstages.again _ hok⟩, ⟨p, hp⟩,
    (hmissing.untouched _ (.inputNotFound p) hp).1⟩

end Work

end TreeListing
