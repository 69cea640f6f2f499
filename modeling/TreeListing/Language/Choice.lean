import TreeListing.Failure
import TreeListing.Language

/-!
# Choosing a language

The language for a name or for a file, or the failure to report when there is none.
-/

namespace TreeListing.Language

/-- The language with a name. -/
def ofName (s : String) : Except Failure Language :=
  match ofName? s with
  | some language => .ok language
  | none => .error (.unsupportedLanguage s)

/-- The failure for a file whose extension no language has. -/
def noGrammar (p : Path) : Failure :=
  let extension := extensionText p
  let shown := if extension.isEmpty then "none" else extension
  .unsupportedLanguage ("no grammar for extension '" ++ shown ++ "' (" ++ p.text ++ ")")

/-- The language of a file by its path. -/
def ofPath (p : Path) : Except Failure Language :=
  match ofPath? p with
  | some language => .ok language
  | none => .error (noGrammar p)

end TreeListing.Language
