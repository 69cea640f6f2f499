import TreeListing.Path
import TreeListing.Text.LowerCase

/-!
# Languages

The languages whose sources can be listed, with the names and the file extensions that
they go by.  Names and extensions are compared in lower case.
-/

namespace TreeListing

/-- A language with a grammar. -/
inductive Language where
  | rust
  | csharp
  | swift
  | javascript
deriving DecidableEq, Repr, Inhabited

namespace Language

/-- Every language. -/
def all : List Language :=
  [rust, csharp, swift, javascript]

/-- The name of a language. -/
def name : Language → String
  | rust => "rust"
  | csharp => "csharp"
  | swift => "swift"
  | javascript => "javascript"

/-- The names that a language may be given by. -/
def names : Language → List String
  | csharp => ["csharp", "c#", "c_sharp", "c-sharp"]
  | l => [l.name]

/-- The extensions of a language's files. -/
def extensions : Language → List String
  | rust => ["rs"]
  | csharp => ["cs"]
  | swift => ["swift"]
  | javascript => ["js", "mjs", "cjs", "jsx"]

/-- A text without the one dot that it may begin with. -/
def withoutDot (s : String) : String :=
  match s.toList with
  | '.' :: rest => String.ofList rest
  | _ => s

/-- The language of files with an extension, which may be given with its dot. -/
def ofExtension? (extension : String) : Option Language :=
  let lower := Text.lowerCase (withoutDot extension)
  all.find? fun l => l.extensions.contains lower

/-- The language with a name, or else the one with an extension. -/
def ofName? (s : String) : Option Language :=
  let lower := Text.lowerCase s
  (all.find? fun l => l.names.contains lower) <|> ofExtension? lower

/-- The extension of a path as text; empty if there is none or it is no text. -/
def extensionText (p : Path) : String :=
  (p.extension?.bind Text.ofBytes?).getD ""

/-- The language of a file by its path. -/
def ofPath? (p : Path) : Option Language :=
  ofExtension? (extensionText p)

end Language

end TreeListing
