import TreeListing.Language
import TreeListing.Tree.Basic

/-!
# Grammars

Syntax trees come from grammars, which are supplied from outside: for each language
either a grammar or the reason why there is none.  A parser keeps the grammar that it
has used last.
-/

namespace TreeListing

/-- What a grammar makes of a source text. -/
structure Parse where
  tree : Tree
  /-- Whether the tree holds nodes that stand for syntax errors. -/
  hasError : Bool
deriving DecidableEq, Repr

/-- A grammar: the tree of a source text, unless parsing is given up. -/
structure Grammar where
  parse : String → Option Parse

/-- The grammars of all languages. -/
abbrev Grammars := Language → Except String Grammar

/-- A parser: the language that it is set to, and the grammar that it has installed. -/
structure SourceParser where
  language : Option Language := none
  grammar : Option Grammar := none

namespace SourceParser

/-- A parser set to a language.  A grammar is loaded only when the language changes. -/
def setTo (p : SourceParser) (grammars : Grammars) (language : Language) :
    Except String SourceParser :=
  if p.language = some language then .ok p
  else (grammars language).map fun grammar => ⟨some language, some grammar⟩

/-- The tree of a source text by the installed grammar. -/
def parse? (p : SourceParser) (source : String) : Option Parse :=
  p.grammar.bind (·.parse source)

end SourceParser

end TreeListing
