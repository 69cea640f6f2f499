import TreeListing.Proofs.Batch.Frame
import TreeListing.Proofs.Work.Parser

/-!
# What a parser has been used for

A parser loads a grammar only when the language changes, so what it makes of a source text
hangs on whether the grammar that it has installed is that of the language it says.  Here one
parser is used for calls of every kind, in any order and with any disk at each of them.

A call that gets to parse sets the parser to its language, and no other call touches it
(`parser_work`); so after any calls the parser is set to the language of the last one that got
as far, with the grammar of this language (`parser_afterCalls`).  `Call.Answers` says what a
call ends with in terms of what it gets to parse, and a call ends so whatever its parser has
been used for (`ends_work`).  `calls_like_fresh` joins the two.
-/

namespace TreeListing

/-- Whether a failure shows before anything is parsed. -/
inductive Failure.BeforeParsing : Failure → Prop where
  | inputNotFound (path : Path) : BeforeParsing (.inputNotFound path)
  | unsupportedLanguage (what : String) : BeforeParsing (.unsupportedLanguage what)
  | read (path : Path) (cause : IoFault) : BeforeParsing (.read path cause)

/-! ## Calls -/

/-- A use of a parser. -/
inductive Call where
  | parse (source : String) (language : Language)
  | render (source : String) (language : Language)
  | renderFile (path : Path) (language : Option Language)
  | renderToOutput (settings : Settings) (input : Path) (language : Option Language)

namespace Call

/-- What a call returns. -/
inductive Value where
  | tree (parse : Parse)
  | lines (rows : List String)
  | listing (language : Language) (rows : List String)
  | file (file : RenderedFile)

/-- The work of a call. -/
def work (grammars : Grammars) : Call → Work Value
  | parse source language => do
      return .tree (← Work.parse grammars source language)
  | render source language => do
      return .lines (← Work.render grammars source language)
  | renderFile path language => do
      let (found, rows) ← Work.renderFile grammars path language
      return .listing found rows
  | renderToOutput settings input language => do
      return .file (← Work.renderToOutput grammars settings input language)

/-- What a call gets to parse on a disk, with the language: nothing if it fails before. -/
def source? (d : Disk) : Call → Option (Language × String)
  | parse source language | render source language => some (language, source)
  | renderFile path language => d.source? path language
  | renderToOutput settings input language => d.source? (settings.inputPath input) language

/-- The language that a call gets to parse with. -/
def language? (d : Disk) (call : Call) : Option Language :=
  (call.source? d).map Prod.fst

/-- That a value shows the tree of a parse in a language. -/
def Value.Shows (language : Language) (p : Parse) : Value → Prop
  | tree q => q = p
  | lines rows => rows = p.tree.render
  | listing found rows => found = language ∧ rows = p.tree.render
  | file f => f.language = language ∧ f.lineCount = p.tree.render.length

/-- What a call may end with, from what it gets to parse: a failure from before, a value that
shows the tree, or a listing that cannot be written. -/
inductive Answers (grammar : Language → Grammar) :
    Option (Language × String) → Except Failure Value → Prop where
  | early {failure : Failure} (h : failure.BeforeParsing) : Answers grammar none (.error failure)
  | value {language : Language} {source : String} {p : Parse} {v : Value}
      (hparse : (grammar language).parse source = some p) (hv : v.Shows language p) :
      Answers grammar (some (language, source)) (.ok v)
  | unwritten {language : Language} {source : String} (path : Path) (cause : IoFault) :
      Answers grammar (some (language, source)) (.error (.write path cause))

namespace Answers

variable {grammar : Language → Grammar} {source? : Option (Language × String)}
  {r : Except Failure Value}

/-- A call does not get to parse just when it fails before. -/
theorem source?_eq_none_iff (h : Answers grammar source? r) :
    source? = none ↔ ∃ failure : Failure, failure.BeforeParsing ∧ r = .error failure := by
  cases h with
  | early hbefore => exact iff_of_true rfl ⟨_, hbefore, rfl⟩
  | value hparse hv => exact iff_of_false (by simp) (by simp)
  | unwritten path cause =>
      refine iff_of_false (by simp) ?_
      rintro ⟨failure, hbefore, ⟨⟩⟩
      cases hbefore

theorem source?_of_write {path : Path} {cause : IoFault}
    (h : Answers grammar source? (.error (.write path cause))) :
    ∃ language source, source? = some (language, source) := by
  cases h with
  | early hbefore => cases hbefore
  | unwritten path cause => exact ⟨_, _, rfl⟩

theorem source?_of_value {v : Value} (h : Answers grammar source? (.ok v)) :
    ∃ language source p, source? = some (language, source) ∧
      (grammar language).parse source = some p ∧ v.Shows language p := by
  cases h with
  | value hparse hv => exact ⟨_, _, _, rfl, hparse, hv⟩

end Answers

end Call

theorem beforeParsing_of_chosenLanguage {path : Path} {language : Option Language}
    {failure : Failure} (h : chosenLanguage path language = .error failure) :
    failure.BeforeParsing := by
  cases language with
  | some language => simp [chosenLanguage] at h
  | none =>
      unfold chosenLanguage Language.ofPath at h
      cases hfound : Language.ofPath? path with
      | some language => simp [hfound] at h
      | none =>
          rw [hfound] at h
          dsimp only [Language.noGrammar] at h
          rw [Except.error.injEq] at h
          subst h
          exact .unsupportedLanguage _

section Histories

variable {grammars : Grammars} {grammar : Language → Grammar} (h : grammars.Total grammar)

include h

/-! ## How a call ends -/

theorem Grammars.Total.parsed_eq {source : String} {language : Language} {p : Parse}
    (hp : (grammar language).parse source = some p) :
    parsed grammars source language = .ok p := by
  rw [parsed, h.load]
  dsimp only
  rw [hp]

theorem Grammars.Total.listingOf_eq {source : String} {language : Language} {p : Parse}
    (hp : (grammar language).parse source = some p) :
    listingOf grammars source language = .ok p.tree.render := by
  rw [listingOf, h.parsed_eq hp]
  rfl

/-- What a new parser makes of a source text. -/
theorem Grammars.Total.runIn_fresh {source : String} {language : Language} {p : Parse}
    (hp : (grammar language).parse source = some p) :
    ((Work.parse grammars source language).runIn {}).1 = .ok p ∧
      ((Work.render grammars source language).runIn {}).1 = .ok p.tree.render := by
  obtain ⟨_, _, -, hparse⟩ := Work.ends_parse grammars {} source language {} #[] .fresh
  obtain ⟨_, _, -, hrender⟩ := Work.ends_render grammars {} source language {} #[] .fresh
  rw [h.parsed_eq hp] at hparse
  rw [h.listingOf_eq hp] at hrender
  exact ⟨congrArg Prod.fst hparse, congrArg Prod.fst hrender⟩

/-- Listing a file fails before anything is parsed, or lists the tree of its source text. -/
theorem Grammars.Total.listing_cases (d : Disk) (path : Path) (language : Option Language) :
    (d.source? path language = none ∧ ∃ failure : Failure, failure.BeforeParsing ∧
      d.listing grammars path language = .error failure) ∨
    ∃ found source p, d.source? path language = some (found, source) ∧
      (grammar found).parse source = some p ∧
      d.listing grammars path language = .ok (found, p.tree.render) := by
  rw [Disk.source?, Disk.listing]
  cases d.content? path with
  | none => exact .inl ⟨rfl, _, .inputNotFound path, rfl⟩
  | some content =>
      cases hchosen : chosenLanguage path language with
      | error failure =>
          refine .inl ⟨rfl, failure, beforeParsing_of_chosenLanguage hchosen, ?_⟩
          simp only [bind, Except.bind]
      | ok found =>
          simp only [bind, Except.bind]
          cases Text.ofBytes? content with
          | none => exact .inl ⟨rfl, _, .read path .notText, rfl⟩
          | some source =>
              obtain ⟨p, hp⟩ := h.parse found source
              refine .inr ⟨found, source, p, rfl, hp, ?_⟩
              simp only [h.listingOf_eq hp]
              rfl

/-- A call ends as what it gets to parse says, whatever its parser has been used for. -/
theorem Grammars.Total.ends_work (call : Call) (d : Disk) :
    ∃ r d', Work.Ends grammars d (call.work grammars) r d' ∧
      Call.Answers grammar (call.source? d) r := by
  cases call with
  | parse source language =>
      obtain ⟨p, hp⟩ := h.parse language source
      have hends := Work.ends_parse grammars d source language
      rw [h.parsed_eq hp] at hends
      exact ⟨_, _, hends.bind (.pure _), .value hp rfl⟩
  | render source language =>
      obtain ⟨p, hp⟩ := h.parse language source
      have hends := Work.ends_render grammars d source language
      rw [h.listingOf_eq hp] at hends
      exact ⟨_, _, hends.bind (.pure _), .value hp rfl⟩
  | renderFile path language =>
      have hends := Work.ends_renderFile grammars d path language
      rw [Call.source?]
      rcases h.listing_cases d path language with
        ⟨hnone, failure, hbefore, hlisting⟩ | ⟨found, source, p, hsome, hp, hlisting⟩
      · rw [hlisting] at hends
        rw [hnone]
        exact ⟨_, _, hends.bind_error _, .early hbefore⟩
      · rw [hlisting] at hends
        rw [hsome]
        exact ⟨_, _, hends.bind (.pure _), .value hp ⟨rfl, rfl⟩⟩
  | renderToOutput settings input language =>
      have hends := Work.ends_renderToOutput grammars d settings language input
      rw [Call.source?]
      have hcases := Disk.renderTo_cases grammars settings language d input
      rcases h.listing_cases d (settings.inputPath input) language with
        ⟨hnone, failure, hbefore, hlisting⟩ | ⟨found, source, p, hsome, hp, hlisting⟩
      · rw [hnone]
        simp only [hlisting, Except.error.injEq, reduceCtorEq, false_and, exists_false,
          or_false] at hcases
        obtain ⟨_, rfl, hend⟩ := hcases
        rw [hend] at hends
        exact ⟨_, _, hends.bind_error _, .early hbefore⟩
      · rw [hsome]
        simp only [hlisting, reduceCtorEq, false_and, exists_false, false_or] at hcases
        obtain ⟨_, _, hsame, ⟨cause, made, -, hend⟩ |
          ⟨made, -, ⟨cause, -, hend⟩ | ⟨written, -, hend⟩⟩⟩ := hcases
        all_goals rw [hend] at hends
        · exact ⟨_, _, hends.bind_error _, .unwritten _ _⟩
        · exact ⟨_, _, hends.bind_error _, .unwritten _ _⟩
        · rw [Except.ok.injEq, Prod.mk.injEq] at hsame
          obtain ⟨rfl, rfl⟩ := hsame
          exact ⟨_, _, hends.bind (.pure _), .value hp ⟨rfl, rfl⟩⟩

/-! ## What a call leaves of its parser -/

/-- A call that gets to parse sets the parser to its language; no other call touches it. -/
theorem Grammars.Total.parser_work (call : Call) (last : Option Language) (d : Disk)
    (log : Array Log.Event) :
    ((call.work grammars).runIn ⟨d, .setFor grammar last, log⟩).2.parser =
      .setFor grammar ((call.language? d).or last) := by
  cases call with
  | parse source language =>
      rw [Call.work, Work.parser_bind]
      · exact Work.parser_parse h last d log source language
      · exact fun _ => Work.KeepsParser.pure _
  | render source language =>
      rw [Call.work, Work.parser_bind]
      · exact Work.parser_render h last d log source language
      · exact fun _ => Work.KeepsParser.pure _
  | renderFile path language =>
      rw [Call.work, Work.parser_bind]
      · exact Work.parser_renderFile h last d log path language
      · exact fun _ => Work.KeepsParser.pure _
  | renderToOutput settings input language =>
      rw [Call.work, Work.parser_bind, Work.renderToOutput, Work.parser_bind]
      · exact Work.parser_renderFile h last d log (settings.inputPath input) language
      · exact fun _ => (Work.keepsParser_writeRendered _ _).bind fun _ => Work.KeepsParser.pure _
      · exact fun _ => Work.KeepsParser.pure _

end Histories

/-- Make calls one after the other with one parser, each on a disk of its own. -/
def afterCalls (grammars : Grammars) (w : Workspace) (calls : List (Disk × Call)) : Workspace :=
  calls.foldl (fun w call => ((call.2.work grammars).runIn { w with disk := call.1 }).2) w

theorem afterCalls_concat (grammars : Grammars) (w : Workspace) (calls : List (Disk × Call))
    (d : Disk) (call : Call) :
    afterCalls grammars w (calls ++ [(d, call)]) =
      ((call.work grammars).runIn { afterCalls grammars w calls with disk := d }).2 := by
  rw [afterCalls, List.foldl_append]
  rfl

/-- The language of the last call that got to parse. -/
def lastLanguage (calls : List (Disk × Call)) : Option Language :=
  (calls.filterMap fun call => call.2.language? call.1).getLast?

theorem lastLanguage_concat (calls : List (Disk × Call)) (d : Disk) (call : Call) :
    lastLanguage (calls ++ [(d, call)]) = (call.language? d).or (lastLanguage calls) := by
  rw [lastLanguage, List.filterMap_append, List.getLast?_append, lastLanguage]
  cases hlanguage : call.language? d with
  | none => simp [hlanguage]
  | some language => simp [hlanguage]

section Histories

variable {grammars : Grammars} {grammar : Language → Grammar} (h : grammars.Total grammar)

include h

/-- After any calls the parser is set to the language of the last one that got to parse. -/
theorem Grammars.Total.parser_afterCalls (calls : List (Disk × Call)) :
    (afterCalls grammars {} calls).parser = .setFor grammar (lastLanguage calls) := by
  induction calls using List.reverseRecOn with
  | nil => rfl
  | append_singleton calls call ih =>
      rw [afterCalls_concat, lastLanguage_concat]
      rcases hw : afterCalls grammars {} calls with ⟨disk, parser, log⟩
      rw [hw] at ih
      obtain rfl : parser = _ := ih
      exact h.parser_work call.2 (lastLanguage calls) call.1 log

/-- After any calls with one parser, each on a disk of its own, the parser is set to the
language of the last call that got to parse, with the grammar of that language.  The next
call then ends as with a new parser, and on the same disk.  It does not get to parse just
when it fails because there is no file, no language or no text, and then the parser stays as it
was; a listing that cannot be written leaves the parser set to its language all the same; and
what is returned shows the tree that a new parser makes of the same source text in the same
language. -/
theorem calls_like_fresh (calls : List (Disk × Call)) :
    let w := afterCalls grammars {} calls
    w.parser.language = lastLanguage calls ∧
    w.parser.grammar = (lastLanguage calls).map grammar ∧
    ∀ (d : Disk) (call : Call),
      let now := (call.work grammars).runIn { w with disk := d }
      let fresh := (call.work grammars).runIn { disk := d }
      now.1 = fresh.1 ∧ now.2.disk = fresh.2.disk ∧
      (call.source? d = none ↔
        ∃ failure : Failure, failure.BeforeParsing ∧ now.1 = .error failure) ∧
      (call.source? d = none → now.2.parser = w.parser) ∧
      (∀ path cause, now.1 = .error (.write path cause) → ∃ language source,
        call.source? d = some (language, source) ∧
          now.2.parser = ⟨some language, some (grammar language)⟩) ∧
      ∀ v, now.1 = .ok v → ∃ language source p,
        call.source? d = some (language, source) ∧
          now.2.parser = ⟨some language, some (grammar language)⟩ ∧
          ((Work.parse grammars source language).runIn {}).1 = .ok p ∧
          ((Work.render grammars source language).runIn {}).1 = .ok p.tree.render ∧
          v.Shows language p := by
  intro w
  have hw : w.parser = .setFor grammar (lastLanguage calls) := h.parser_afterCalls calls
  refine ⟨by rw [hw]; rfl, by rw [hw]; rfl, ?_⟩
  intro d call now fresh
  obtain ⟨r, d', hends, hanswers⟩ := h.ends_work call d
  obtain ⟨parser, log, -, hnow⟩ := hends w.parser w.log (hw ▸ h.follows _)
  obtain ⟨parser', log', -, hfresh⟩ := hends {} #[] .fresh
  have hr : now.1 = r := congrArg Prod.fst hnow
  have hparser : now.2.parser = .setFor grammar ((call.language? d).or (lastLanguage calls)) := by
    have hwork := h.parser_work call (lastLanguage calls) d w.log
    rwa [← hw] at hwork
  have hset : ∀ language source, call.source? d = some (language, source) →
      now.2.parser = ⟨some language, some (grammar language)⟩ := by
    intro language source hsource
    rw [hparser, Call.language?, hsource]
    rfl
  rw [← hr] at hanswers
  refine ⟨hr.trans (congrArg Prod.fst hfresh).symm,
    (congrArg (·.2.disk) hnow).trans (congrArg (·.2.disk) hfresh).symm,
    hanswers.source?_eq_none_iff, ?_, ?_, ?_⟩
  · intro hnone
    rw [hparser, Call.language?, hnone, hw]
    rfl
  · intro path cause hwrite
    rw [hwrite] at hanswers
    obtain ⟨language, source, hsource⟩ := hanswers.source?_of_write
    exact ⟨language, source, hsource, hset _ _ hsource⟩
  · intro v hv
    rw [hv] at hanswers
    obtain ⟨language, source, p, hsource, hp, hshows⟩ := hanswers.source?_of_value
    obtain ⟨hparse, hrender⟩ := h.runIn_fresh hp
    exact ⟨language, source, p, hsource, hset _ _ hsource, hparse, hrender, hshows⟩

end Histories

/-- A leaf that has the name of a language for its kind. -/
def namingTree (language : Language) : Tree :=
  ⟨⟨language.name, true, false, none, ⟨0, 0⟩, ⟨0, 1⟩⟩, .nil⟩

/-- A grammar that makes this leaf of every source text. -/
def namingGrammar (language : Language) : Grammar :=
  ⟨fun _ => some ⟨namingTree language, false⟩⟩

/-- A file is listed, one that is not there is not, another is listed into a file, and one
without a language is not. -/
def sampleCalls : List (Disk × Call) :=
  [(Batch.sampleDisk, .renderFile (Path.ofText "inputs/a.js") none),
    ({}, .renderFile (Path.ofText "inputs/a.js") none),
    (Batch.sampleDisk, .renderToOutput .default (Path.ofText "b.swift") none),
    (Batch.sampleDisk, .renderFile (Path.ofText "inputs") none)]

/-- After these calls the parser is set to the language of the third, and makes of a source
text in the language of the first what a new parser makes of it. -/
theorem calls_like_fresh_sampleCalls :
    let grammars : Grammars := fun language => .ok (namingGrammar language)
    let w := afterCalls grammars {} sampleCalls
    w.parser.language = some .swift ∧ w.parser.grammar = some (namingGrammar .swift) ∧
    (((Call.render "a" .javascript).work grammars).runIn { w with disk := {} }).1 =
      (((Call.render "a" .javascript).work grammars).runIn {}).1 ∧
    ∃ rows, (((Call.render "a" .javascript).work grammars).runIn {}).1 = .ok (.lines rows) ∧
      ((Work.render grammars "a" .javascript).runIn {}).1 = .ok rows := by
  intro grammars w
  have htotal : grammars.Total namingGrammar := ⟨fun _ => rfl, fun _ _ => ⟨_, rfl⟩⟩
  have hlast : lastLanguage sampleCalls = some .swift := by decide +kernel
  obtain ⟨hlanguage, hgrammar, hcall⟩ := calls_like_fresh htotal sampleCalls
  obtain ⟨hsame, -, -, -, -, hvalue⟩ := hcall {} (.render "a" .javascript)
  rw [hlast] at hlanguage hgrammar
  refine ⟨hlanguage, hgrammar, hsame, ?_⟩
  have hends := Work.ends_render grammars {} "a" .javascript
  rw [htotal.listingOf_eq rfl] at hends
  have hwork : Work.Ends grammars {} ((Call.render "a" .javascript).work grammars)
      (.ok (.lines (namingTree .javascript).render)) {} := hends.bind (.pure _)
  obtain ⟨_, _, -, hfresh⟩ := hwork {} #[] .fresh
  have hlines := congrArg Prod.fst hfresh
  obtain ⟨language, source, p, hsource, -, -, hrendered, hshows⟩ := hvalue _ (hsame.trans hlines)
  obtain ⟨rfl, rfl⟩ : language = .javascript ∧ source = "a" := by
    simpa [Call.source?, eq_comm] using hsource
  exact ⟨_, hlines, hrendered.trans (congrArg Except.ok hshows.symm)⟩

end TreeListing
