import TreeListing.Proofs.Work.Ends

/-!
# What work does to its parser

Work reports, looks at the disk and changes it, and none of that touches the parser:
`KeepsParser` has a rule for each of these steps.  Only parsing sets the parser, to the language
that it parses with.  `Disk.source?` reads off the disk what listing a file gets to parse, if
it gets that far, so what listing a file leaves of the parser is known from the disk
(`parser_renderFile`).
-/

namespace TreeListing

/-- Every language has a grammar, and no grammar gives a text up. -/
structure Grammars.Total (grammars : Grammars) (grammar : Language → Grammar) : Prop where
  load : ∀ l, grammars l = .ok (grammar l)
  parse : ∀ l source, ∃ p, (grammar l).parse source = some p

/-- A parser that is set to a language, with its grammar, or to none. -/
def SourceParser.setFor (grammar : Language → Grammar) (language : Option Language) :
    SourceParser :=
  ⟨language, language.map grammar⟩

theorem Grammars.Total.follows {grammars : Grammars} {grammar : Language → Grammar}
    (h : grammars.Total grammar) (language : Option Language) :
    (SourceParser.setFor grammar language).Follows grammars := by
  cases language with
  | none => exact .fresh
  | some l => exact .set (h.load l)

/-- The language of a source file and its text, as far as there is a file, a language for it
and text in it. -/
def Disk.source? (d : Disk) (path : Path) (language : Option Language) :
    Option (Language × String) :=
  match d.content? path, chosenLanguage path language with
  | some content, .ok found => (Text.ofBytes? content).map fun source => (found, source)
  | _, _ => none

namespace Work

/-! ## Work that does not touch the parser -/

/-- Work that leaves the parser as it is. -/
def KeepsParser {α : Type} (t : Work α) : Prop :=
  ∀ w, (t.runIn w).2.parser = w.parser

namespace KeepsParser

variable {α β : Type}

theorem pure (a : α) : KeepsParser (Pure.pure a : Work α) :=
  fun _ => rfl

theorem throw (e : Failure) : KeepsParser (MonadExcept.throw e : Work α) :=
  fun _ => rfl

theorem disk : KeepsParser Work.disk :=
  fun _ => rfl

theorem setDisk (d : Disk) : KeepsParser (Work.setDisk d) :=
  fun _ => rfl

theorem report (level : Log.Level) (target message : String) (fields : List (String × String)) :
    KeepsParser (Work.report level target message fields) :=
  fun _ => rfl

theorem bind {t : Work α} {next : α → Work β} (ht : KeepsParser t)
    (hnext : ∀ a, KeepsParser (next a)) : KeepsParser (t >>= next) := by
  intro w
  have hfirst := ht w
  rw [runIn_bind]
  rcases hrun : t.runIn w with ⟨_ | a, after⟩
  · rwa [hrun] at hfirst
  · rw [hrun] at hfirst
    exact (hnext a after).trans hfirst

theorem throw_bind (e : Failure) (next : α → Work β) :
    KeepsParser (MonadExcept.throw e >>= next) := by
  intro w
  rw [runIn_bind]
  rfl

end KeepsParser

/-- After some work, work that does not touch the parser leaves it as the first part has. -/
theorem parser_bind {α β : Type} (t : Work α) {next : α → Work β}
    (hnext : ∀ a, KeepsParser (next a)) (w : Workspace) :
    ((t >>= next).runIn w).2.parser = (t.runIn w).2.parser := by
  rw [runIn_bind]
  rcases t.runIn w with ⟨_ | a, after⟩
  · rfl
  · exact hnext a after

theorem keepsParser_list (t : Tree) : KeepsParser (list (Cursor.confinedTo t)) := by
  intro w
  have hrender : (Cursor.confinedTo t).render = .ok (t.render, (Cursor.confinedTo t).walk.2) :=
    Cursor.render_of_depth (Cursor.confined_confinedTo t).depth
  obtain ⟨log, hrun⟩ := runIn_list hrender w
  rw [hrun]

/-- Choosing a language only looks at the path. -/
theorem runIn_chooseLanguage (path : Path) (language : Option Language) (w : Workspace) :
    (chooseLanguage path language).runIn w = (chosenLanguage path language, w) := by
  cases language with
  | some language => rfl
  | none => exact runIn_ofExcept (Language.ofPath path) w

theorem keepsParser_writeRendered (lines : List String) (path : Path) :
    KeepsParser (writeRendered lines path) := by
  intro w
  obtain ⟨log, hrun⟩ := runIn_writeRendered lines path w
  rw [hrun]

/-! ## Work that sets the parser -/

section Sets

variable {grammars : Grammars} {grammar : Language → Grammar} (h : grammars.Total grammar)
  (last : Option Language) (d : Disk) (log : Array Log.Event)

include h

/-- Parsing sets the parser to its language. -/
theorem parser_parse (source : String) (language : Language) :
    ((parse grammars source language).runIn ⟨d, .setFor grammar last, log⟩).2.parser =
      .setFor grammar (some language) := by
  have hset : (SourceParser.setFor grammar last).setTo grammars language =
      .ok (.setFor grammar (some language)) := by
    rw [(h.follows last).setTo_eq language, h.load]
    rfl
  rw [parse, runIn_bind_of_ok (runIn_get _), hset]
  dsimp only
  rw [parser_bind]
  · rfl
  · intro _
    cases SourceParser.parse? (.setFor grammar (some language)) source with
    | none => exact KeepsParser.throw _
    | some result =>
        refine (KeepsParser.report _ _ _ _).bind fun _ => ?_
        cases result.hasError with
        | false => exact KeepsParser.pure result
        | true => exact (KeepsParser.report _ _ _ _).bind fun _ => KeepsParser.pure result

theorem parser_render (source : String) (language : Language) :
    ((render grammars source language).runIn ⟨d, .setFor grammar last, log⟩).2.parser =
      .setFor grammar (some language) := by
  rw [render, parser_bind]
  · exact parser_parse h last d log source language
  · exact fun p => keepsParser_list p.tree

/-- Listing a file sets the parser to its language if there is a source text to parse, and
leaves it as it is otherwise. -/
theorem parser_renderFile (path : Path) (language : Option Language) :
    ((renderFile grammars path language).runIn ⟨d, .setFor grammar last, log⟩).2.parser =
      .setFor grammar (((d.source? path language).map Prod.fst).or last) := by
  rw [renderFile, runIn_bind_of_ok (runIn_disk _), Disk.isFile_eq, Disk.source?]
  cases hcontent : d.content? path with
  | none => exact KeepsParser.throw_bind _ _ _
  | some content =>
      dsimp only [Option.isSome_some, Bool.not_true]
      rw [if_neg (by simp), runIn_bind, runIn_chooseLanguage]
      cases chosenLanguage path language with
      | error failure => rfl
      | ok found =>
          dsimp only
          rw [runIn_bind_of_ok (runIn_disk _), Disk.readText_of_content? hcontent]
          cases Text.ofBytes? content with
          | none => exact KeepsParser.throw _ _
          | some source =>
              dsimp only
              rw [runIn_bind_of_ok (runIn_report ..), parser_bind]
              · exact parser_render h last d _ source found
              · exact fun lines => KeepsParser.pure _

end Sets

end Work

end TreeListing
