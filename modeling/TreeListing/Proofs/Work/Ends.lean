import TreeListing.Proofs.Disk.Reading
import TreeListing.Proofs.Settings.Output
import TreeListing.Proofs.Walk.Reference
import TreeListing.Proofs.Work.Saving

/-!
# How work ends

Work also reports events and sets its parser, but neither has a part in how it ends.
`Ends` says so: from a given disk the work ends with a given value or failure and leaves a
given disk, whatever its parser has been used for before and whatever the log holds.  For
each piece of work that lists files a function of the disk says how it ends, up to
`Disk.renderTo` for listing one input into its file.
-/

namespace TreeListing

/-- What a parser can be that has only been used with the given grammars. -/
inductive SourceParser.Follows (grammars : Grammars) : SourceParser → Prop where
  | fresh : Follows grammars {}
  | set {language : Language} {grammar : Grammar} (h : grammars language = .ok grammar) :
      Follows grammars ⟨some language, some grammar⟩

/-- Setting a parser loads the grammar of the language, or ends with the reason why there is
none, whatever the parser has been set to before. -/
theorem SourceParser.Follows.setTo_eq {grammars : Grammars} {p : SourceParser}
    (h : p.Follows grammars) (language : Language) :
    p.setTo grammars language =
      (grammars language).map fun grammar => ⟨some language, some grammar⟩ := by
  cases h with
  | fresh => simp [setTo]
  | set hset =>
      unfold setTo
      split
      · next hsame =>
          obtain rfl := Option.some.inj hsame
          rw [hset]
          rfl
      · rfl

namespace Work

/-- From a disk, work ends with a value or failure and leaves a disk.  The parser is one that
has only been used with the grammars, and stays one. -/
def Ends {α : Type} (grammars : Grammars) (d : Disk) (t : Work α) (r : Except Failure α)
    (d' : Disk) : Prop :=
  ∀ parser log, parser.Follows grammars → ∃ parser' log', parser'.Follows grammars ∧
    t.runIn ⟨d, parser, log⟩ = (r, ⟨d', parser', log'⟩)

namespace Ends

variable {α β : Type} {grammars : Grammars} {d d' d'' : Disk}

theorem pure (a : α) : Ends grammars d (Pure.pure a) (.ok a) d :=
  fun parser log h => ⟨parser, log, h, rfl⟩

theorem throw (e : Failure) : Ends (α := α) grammars d (MonadExcept.throw e) (.error e) d :=
  fun parser log h => ⟨parser, log, h, rfl⟩

theorem ofExcept (r : Except Failure α) : Ends grammars d (MonadExcept.ofExcept r) r d := by
  cases r with
  | ok a => exact pure a
  | error e => exact throw e

theorem disk : Ends grammars d Work.disk (.ok d) d :=
  fun parser log h => ⟨parser, log, h, rfl⟩

theorem setDisk (made : Disk) : Ends grammars d (Work.setDisk made) (.ok ()) made :=
  fun parser log h => ⟨parser, log, h, rfl⟩

theorem report (level : Log.Level) (target message : String) (fields : List (String × String)) :
    Ends grammars d (Work.report level target message fields) (.ok ()) d :=
  fun parser _ h => ⟨parser, _, h, rfl⟩

theorem bind {t : Work α} {a : α} {next : α → Work β} {r : Except Failure β}
    (ht : Ends grammars d t (.ok a) d') (hnext : Ends grammars d' (next a) r d'') :
    Ends grammars d (t >>= next) r d'' := by
  intro parser log h
  obtain ⟨parser', log', h', hrun⟩ := ht parser log h
  rw [runIn_bind_of_ok hrun]
  exact hnext parser' log' h'

theorem bind_error {t : Work α} {e : Failure} (ht : Ends grammars d t (.error e) d')
    (next : α → Work β) : Ends grammars d (t >>= next) (.error e) d' := by
  intro parser log h
  obtain ⟨parser', log', h', hrun⟩ := ht parser log h
  refine ⟨parser', log', h', ?_⟩
  rw [runIn_bind, hrun]

/-- Work that only finds out values goes on with each of them. -/
theorem bindValue {t : Work α} {r : Except Failure α} {next : α → Work β}
    {s : α → Except Failure β} (ht : Ends grammars d t r d)
    (hnext : ∀ a, Ends grammars d (next a) (s a) d) :
    Ends grammars d (t >>= next) (r >>= s) d := by
  cases r with
  | ok a => exact ht.bind (hnext a)
  | error e => exact ht.bind_error next

theorem attempt {t : Work α} {r : Except Failure α} (ht : Ends grammars d t r d') :
    Ends grammars d t.attempt (.ok r) d' := by
  intro parser log h
  obtain ⟨parser', log', h', hrun⟩ := ht parser log h
  refine ⟨parser', log', h', ?_⟩
  rw [runIn_attempt, hrun]

/-- With a parser of its own, work ends as it does with a fresh one. -/
theorem withOwnParser {t : Work α} {r : Except Failure α} (ht : Ends grammars d t r d') :
    Ends grammars d (Work.withOwnParser t) r d' := by
  intro parser log h
  obtain ⟨_, log', -, hrun⟩ := ht {} log .fresh
  refine ⟨parser, log', h, ?_⟩
  rw [runIn_withOwnParser, hrun]

end Ends

/-- Work that leaves the disk as it is. -/
def Looks {α : Type} (grammars : Grammars) (d : Disk) (t : Work α) : Prop :=
  ∃ r, Ends grammars d t r d

namespace Looks

variable {α β : Type} {grammars : Grammars} {d : Disk}

theorem pure (a : α) : Looks grammars d (Pure.pure a) :=
  ⟨_, .pure a⟩

theorem throw (e : Failure) : Looks (α := α) grammars d (MonadExcept.throw e) :=
  ⟨_, .throw e⟩

theorem ofExcept (r : Except Failure α) : Looks grammars d (MonadExcept.ofExcept r) :=
  ⟨_, .ofExcept r⟩

theorem disk : Looks grammars d Work.disk :=
  ⟨_, .disk⟩

theorem report (level : Log.Level) (target message : String) (fields : List (String × String)) :
    Looks grammars d (Work.report level target message fields) :=
  ⟨_, .report level target message fields⟩

theorem bind {t : Work α} {next : α → Work β} (ht : Looks grammars d t)
    (hnext : ∀ a, Looks grammars d (next a)) : Looks grammars d (t >>= next) := by
  obtain ⟨r, hr⟩ := ht
  cases r with
  | error e => exact ⟨_, hr.bind_error next⟩
  | ok a =>
      obtain ⟨s, hs⟩ := hnext a
      exact ⟨s, hr.bind hs⟩

end Looks

end Work

/-! ## Listing -/

/-- What the grammar of a language makes of a source text. -/
def parsed (grammars : Grammars) (source : String) (language : Language) : Except Failure Parse :=
  match grammars language with
  | .error reason => .error (.parser ("failed to load " ++ language.name ++ " grammar: " ++ reason))
  | .ok grammar =>
      match grammar.parse source with
      | none => .error (.parser ("tree-sitter returned no " ++ language.name ++ " tree"))
      | some parse => .ok parse

/-- The listing of a source text by the grammar of its language. -/
def listingOf (grammars : Grammars) (source : String) (language : Language) :
    Except Failure (List String) :=
  (parsed grammars source language).map (·.tree.render)

/-- The given language, or else the one that a path tells. -/
def chosenLanguage (path : Path) : Option Language → Except Failure Language
  | some language => .ok language
  | none => Language.ofPath path

namespace Disk

/-- The language of a source file and the listing of its tree. -/
def listing (grammars : Grammars) (d : Disk) (path : Path) (language : Option Language) :
    Except Failure (Language × List String) := do
  match d.content? path with
  | none => throw (.inputNotFound path)
  | some content =>
      let language ← chosenLanguage path language
      match Text.ofBytes? content with
      | none => throw (.read path .notText)
      | some source => return (language, ← listingOf grammars source language)

/-- What has been listed is the text of the source file in its language. -/
theorem listing_ok {grammars : Grammars} {d : Disk} {path : Path} {language : Option Language}
    {found : Language} {lines : List String}
    (h : d.listing grammars path language = .ok (found, lines)) :
    ∃ source, d.content? path = some (Text.bytes source) ∧
      chosenLanguage path language = .ok found ∧ listingOf grammars source found = .ok lines := by
  rw [listing] at h
  cases hcontent : d.content? path with
  | none => simp [hcontent] at h
  | some content =>
      rw [hcontent] at h
      cases hchosen : chosenLanguage path language with
      | error failure => simp [hchosen, bind, Except.bind] at h
      | ok chosen =>
          simp only [hchosen, bind, Except.bind] at h
          cases htext : Text.ofBytes? content with
          | none => simp [htext] at h
          | some source =>
              simp only [htext] at h
              cases hlines : listingOf grammars source chosen with
              | error failure => simp [hlines] at h
              | ok listed =>
                  rw [hlines] at h
                  obtain ⟨rfl, rfl⟩ := Prod.mk.inj (Except.ok.inj h)
                  exact ⟨source, by rw [Text.bytes_of_ofBytes? htext], rfl, hlines⟩

/-- Make the outputs directory, with all those above it. -/
def makeOutputs (d : Disk) (settings : Settings) : Option IoFault × Disk :=
  if settings.outputs.trimmed.bytes.isEmpty then (none, d)
  else d.createDirectories settings.outputs.trimmed

/-- Write the listing of an input into its file. -/
def saved (d : Disk) (settings : Settings) (input : Path) (lines : List String) :
    Except Failure Unit × Disk :=
  match d.write (settings.outputPath input) (Text.bytes (joinLines lines)) with
  | .error cause => (.error (.write (settings.outputPath input) cause), d)
  | .ok written => (.ok (), written)

/-- Make the outputs directory and write the listing of an input there. -/
def writeListing (d : Disk) (settings : Settings) (input : Path) (lines : List String) :
    Except Failure Unit × Disk :=
  match d.makeOutputs settings with
  | (some cause, made) => (.error (.write settings.outputs.trimmed cause), made)
  | (none, made) => made.saved settings input lines

/-- List one input into its file. -/
def renderTo (grammars : Grammars) (settings : Settings) (language : Option Language)
    (d : Disk) (input : Path) : Except Failure RenderedFile × Disk :=
  match d.listing grammars (settings.inputPath input) language with
  | .error failure => (.error failure, d)
  | .ok (language, lines) =>
      match d.writeListing settings input lines with
      | (.error failure, d') => (.error failure, d')
      | (.ok (), d') =>
          (.ok ⟨settings.inputPath input, language, settings.outputPath input, lines.length⟩, d')

end Disk

/-- The listing of an input is saved at its path in the outputs directory. -/
theorem Disk.writeListing_eq_save (d : Disk) (settings : Settings) (input : Path)
    (lines : List String) :
    d.writeListing settings input lines = d.save lines (settings.outputPath input) := by
  have hready : d.ready settings.outputs.trimmed = d.makeOutputs settings := rfl
  rw [writeListing, save, Settings.parent?_outputPath]
  dsimp only
  rw [hready]
  rcases d.makeOutputs settings with ⟨_ | cause, made⟩ <;> rfl

theorem Disk.makeOutputs_of_changes {d made now : Disk} {settings : Settings}
    (h : d.makeOutputs settings = (none, made)) {directories files : Location → Prop}
    (hafter : Changes directories files made now) : now.makeOutputs settings = (none, now) :=
  ready_of_changes h hafter

namespace Work

variable (grammars : Grammars) (d : Disk)

/-- Parsing ends with what the grammar of the language makes of the source text. -/
theorem ends_parse (source : String) (language : Language) :
    Ends grammars d (parse grammars source language) (parsed grammars source language) d := by
  intro parser log h
  rw [parse, runIn_bind_of_ok (runIn_get _), h.setTo_eq language, parsed]
  cases hgrammar : grammars language with
  | error reason => exact ⟨parser, log, h, rfl⟩
  | ok grammar =>
      have hset : SourceParser.Follows grammars ⟨some language, some grammar⟩ := .set hgrammar
      have hparse : SourceParser.parse? ⟨some language, some grammar⟩ source =
        grammar.parse source := rfl
      change ∃ parser log, _ ∧ (modify _ >>= fun _ => _ : Work Parse).runIn _ = _
      rw [runIn_bind_of_ok (runIn_modify ..)]
      dsimp only
      rw [hparse]
      cases grammar.parse source with
      | none => exact ⟨_, log, hset, rfl⟩
      | some result =>
          -- what has been parsed is reported
          have hreported : Ends grammars d (do
              report .debug "tree_builder::parser" "Parsed source"
                [("language", language.name), ("bytes", toString source.utf8ByteSize),
                  ("has_error", flagText result.hasError)]
              if result.hasError then
                report .warn "tree_builder::parser"
                  "Source contains syntax errors; dump includes recovery nodes"
                  [("language", language.name)]
              return result) (.ok result) d := by
            refine (Ends.report _ _ _ _).bind ?_
            cases result.hasError with
            | false => exact Ends.pure result
            | true => exact (Ends.report _ _ _ _).bind (Ends.pure result)
          exact hreported _ log hset

theorem ends_list (t : Tree) : Ends grammars d (list (Cursor.confinedTo t)) (.ok t.render) d := by
  intro parser log h
  have hrender : (Cursor.confinedTo t).render = .ok (t.render, (Cursor.confinedTo t).walk.2) :=
    Cursor.render_of_depth (Cursor.confined_confinedTo t).depth
  obtain ⟨log', hrun⟩ := runIn_list hrender ⟨d, parser, log⟩
  exact ⟨parser, log', h, hrun⟩

theorem ends_render (source : String) (language : Language) :
    Ends grammars d (render grammars source language) (listingOf grammars source language) d :=
  (ends_parse grammars d source language).bindValue fun parse => ends_list grammars d parse.tree

theorem ends_chooseLanguage (path : Path) (language : Option Language) :
    Ends grammars d (chooseLanguage path language) (chosenLanguage path language) d := by
  cases language with
  | some language => exact Ends.pure language
  | none => exact Ends.ofExcept (Language.ofPath path)

/-- Listing a source file depends on its content alone, and leaves the disk as it is. -/
theorem ends_renderFile (path : Path) (language : Option Language) :
    Ends grammars d (renderFile grammars path language) (d.listing grammars path language) d := by
  refine Ends.disk.bind ?_
  rw [Disk.isFile_eq, Disk.listing]
  cases hcontent : d.content? path with
  | none => exact (Ends.throw _).bind_error _
  | some content =>
      refine (ends_chooseLanguage grammars d path language).bindValue fun language => ?_
      refine Ends.disk.bind ?_
      rw [Disk.readText_of_content? hcontent]
      cases Text.ofBytes? content with
      | none => exact Ends.throw _
      | some source =>
          refine (Ends.report _ _ _ _).bind ?_
          exact (ends_render grammars d source language).bindValue fun lines =>
            Ends.pure (language, lines)

/-- Writing a listing makes the outputs directory first. -/
theorem ends_writeRendered (settings : Settings) (input : Path) (lines : List String) :
    Ends grammars d (writeRendered lines (settings.outputPath input))
      (d.writeListing settings input lines).1 (d.writeListing settings input lines).2 := by
  intro parser log h
  obtain ⟨log', hrun⟩ := runIn_writeRendered lines (settings.outputPath input) ⟨d, parser, log⟩
  rw [Disk.writeListing_eq_save]
  exact ⟨parser, log', h, hrun⟩

/-- Listing one input into its file. -/
theorem ends_renderToOutput (settings : Settings) (language : Option Language) (input : Path) :
    Ends grammars d (renderToOutput grammars settings input language)
      (d.renderTo grammars settings language input).1
      (d.renderTo grammars settings language input).2 := by
  have hlisting := ends_renderFile grammars d (settings.inputPath input) language
  unfold renderToOutput
  rw [Disk.renderTo]
  cases hlines : d.listing grammars (settings.inputPath input) language with
  | error failure =>
      rw [hlines] at hlisting
      exact hlisting.bind_error _
  | ok found =>
      rw [hlines] at hlisting
      refine hlisting.bind ?_
      have hwrite := ends_writeRendered grammars d settings input found.2
      dsimp only
      rcases hwritten : d.writeListing settings input found.2 with ⟨failure | _, d'⟩
      · rw [hwritten] at hwrite
        exact hwrite.bind_error _
      · rw [hwritten] at hwrite
        exact hwrite.bind (Ends.pure _)

end Work

end TreeListing
