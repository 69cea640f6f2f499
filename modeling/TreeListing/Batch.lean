import TreeListing.Language.Choice
import TreeListing.Listing
import TreeListing.Settings.Basic
import TreeListing.Workspace

/-!
# Listing source files

A source file is found, its language is told by its name unless it is given, it is
read and parsed, and the listing of its tree is written.  In a batch every input is
treated alike, and one that fails does not stop the others.
-/

namespace TreeListing

/-- A listing that has been written. -/
structure RenderedFile where
  input : Path
  language : Language
  output : Path
  lineCount : Nat
deriving DecidableEq, Repr

/-- What became of one input of a batch. -/
structure Outcome where
  /-- The input as it was given. -/
  requested : Path
  result : Except Failure RenderedFile

namespace Work

/-- A truth value as it is shown in log messages. -/
def flagText (b : Bool) : String :=
  if b then "true" else "false"

/-- Parse a source text. -/
def parse (grammars : Grammars) (source : String) (language : Language) : Work Parse := do
  match (← get).parser.setTo grammars language with
  | .error reason =>
      throw (.parser ("failed to load " ++ language.name ++ " grammar: " ++ reason))
  | .ok parser =>
      modify fun w => { w with parser := parser }
      match parser.parse? source with
      | none => throw (.parser ("tree-sitter returned no " ++ language.name ++ " tree"))
      | some parse =>
          report .debug "tree_builder::parser" "Parsed source"
            [("language", language.name), ("bytes", toString source.utf8ByteSize),
              ("has_error", flagText parse.hasError)]
          if parse.hasError then
            report .warn "tree_builder::parser"
              "Source contains syntax errors; dump includes recovery nodes"
              [("language", language.name)]
          return parse

/-- List from a cursor. -/
def list (c : Cursor) : Work (List String) :=
  match c.render with
  | .error e => throw (.cursorNotAtRoot e.depth)
  | .ok (lines, _) => do
      lines.forM fun line =>
        report .trace "tree_builder::printer" "Opened row" [("row", line)]
      report .debug "tree_builder::printer" "Rendered syntax tree"
        [("lines", toString lines.length)]
      return lines

/-- Parse a source text and list its tree. -/
def render (grammars : Grammars) (source : String) (language : Language) :
    Work (List String) := do
  let parse ← parse grammars source language
  list (Cursor.confinedTo parse.tree)

/-- The given language, or else the one that a path tells. -/
def chooseLanguage (path : Path) : Option Language → Work Language
  | some language => return language
  | none => MonadExcept.ofExcept (Language.ofPath path)

/-- Read a source file and list its tree. -/
def renderFile (grammars : Grammars) (path : Path) (language : Option Language) :
    Work (Language × List String) := do
  if !(← disk).isFile path then throw (.inputNotFound path)
  let language ← chooseLanguage path language
  match (← disk).readText path with
  | .error cause => throw (.read path cause)
  | .ok source =>
      report .debug "tree_builder::batch" "Rendering file"
        [("path", path.text), ("language", language.name)]
      let lines ← render grammars source language
      return (language, lines)

/-- Write a listing, and make the directories that it goes into. -/
def writeRendered (lines : List String) (path : Path) : Work Unit := do
  if let some parent := path.parent? then
    if !parent.bytes.isEmpty then
      let (fault, made) := (← disk).createDirectories parent
      setDisk made
      if let some cause := fault then throw (.write parent cause)
  match (← disk).write path (Text.bytes (joinLines lines)) with
  | .error cause => throw (.write path cause)
  | .ok written =>
      setDisk written
      report .debug "tree_builder::output" "Wrote rendered tree"
        [("path", path.text), ("lines", toString lines.length)]

/-- List one input and write the listing where the settings say. -/
def renderToOutput (grammars : Grammars) (settings : Settings) (input : Path)
    (language : Option Language) : Work RenderedFile := do
  let path := settings.inputPath input
  let (language, lines) ← renderFile grammars path language
  let output := settings.outputPath input
  writeRendered lines output
  return ⟨path, language, output, lines.length⟩

/-- List every input, with one parser for all of them. -/
def renderBatch (grammars : Grammars) (settings : Settings) (inputs : List Path)
    (language : Option Language) : Work (List Outcome) := do
  report .debug "tree_builder::batch" "Rendering batch" [("inputs", toString inputs.length)]
  withOwnParser (inputs.mapM fun input => do
    return ⟨input, ← (renderToOutput grammars settings input language).attempt⟩)

end Work

end TreeListing
