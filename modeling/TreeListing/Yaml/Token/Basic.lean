import TreeListing.Yaml.Directive

/-!
# Tokens

The pieces that a YAML text is made of.  Indentation has tokens too: a block
collection begins where a line is indented further, and ends where one is not.
-/

namespace TreeListing.Yaml

/-- What a token is. -/
inductive TokenKind where
  /-- The end of the text. -/
  | finish
  | directive (directive : Directive)
  | documentStart
  | documentEnd
  | blockSequenceStart
  | blockMappingStart
  | blockEnd
  | flowSequenceStart
  | flowSequenceEnd
  | flowMappingStart
  | flowMappingEnd
  | blockEntry
  | flowEntry
  | key
  | value
  | reference (name : List Char)
  | anchor (name : List Char)
  | tag (tag : Tag)
  | scalar (text : List Char) (plain : Bool)
deriving DecidableEq, Repr

/-- A token and its place. -/
structure Token where
  kind : TokenKind
  start : Mark
  stop : Mark
deriving DecidableEq, Repr

/-- The tokens of a text in order: up to its end or up to the first fault. -/
inductive Tokens where
  | ended (mark : Mark)
  | failed (fault : Fault)
  | next (token : Token) (rest : Tokens)
deriving DecidableEq, Repr

namespace Tokens

/-- Tokens before others. -/
def prepend (tokens : List Token) (rest : Tokens) : Tokens :=
  tokens.foldr next rest

/-- The number of tokens. -/
def length : Tokens → Nat
  | next _ rest => rest.length + 1
  | _ => 0

end Tokens

/-- Read the name of an anchor or an alias, given what was being read. -/
def scanName (context : Context) (i : Input) : Except Fault (List Char × Input) :=
  let name := (i.forward 1).run isWord
  let after := i.forward (1 + name.length)
  let ends := blankOrEnd after.chars
    || after.chars.head?.any fun c => "?:,]\x7d%@\x60".toList.contains c
  if name.isEmpty || !ends then .error (after.fault .noAnchorName context i.mark)
  else .ok (name, after)

end TreeListing.Yaml
