import TreeListing.Yaml.Gap
import TreeListing.Yaml.Input

/-!
# Plain scalars

A scalar without quotes.  It goes on over blanks and line breaks, which are folded,
and ends before a comment, before a colon that a blank follows, before a document
marker, at a line that is not indented enough, and in flow collections before their
punctuation.  White space at its end is read but is no part of it.
-/

namespace TreeListing.Yaml.Plain

/-- What ends a scalar inside a flow collection. -/
def isFlowPunctuation (c : Char) : Bool :=
  c == ',' || c == '[' || c == ']' || c == '\x7b' || c == '\x7d'

/-- A scalar that has been read. -/
structure Result where
  text : List Char
  /-- What comes after the white space at its end. -/
  after : Input
  /-- Whether a line break was in that white space. -/
  broken : Bool
deriving DecidableEq, Repr

/-- Where a scalar is being read. -/
structure Setting where
  /-- Inside a flow collection. -/
  flow : Bool
  /-- The least column of the scalar's later lines. -/
  indent : Nat
  start : Mark

/-- Whether the scalar ends before this character. -/
def endsBefore (s : Setting) (gap : Gap) (mark : Mark) (c : Char) (rest : List Char) : Bool :=
  gap.isSome && ((!s.flow && mark.column < s.indent) || c == '#'
      || (mark.column == 0 && documentMarkerAhead (c :: rest)))
    || c == ':' && blankOrEnd rest
    || s.flow && isFlowPunctuation c

/-- Read on, with the text read so far in reverse and the white space after it. -/
def readOn (s : Setting) : List Char → Mark → Gap → List Char → Except Fault Result
  | [], mark, gap, read => .ok ⟨read.reverse, ⟨[], mark⟩, gap.broken⟩
  | '\r' :: '\n' :: rest, mark, gap, read =>
      readOn s rest (mark.nextLine 2) (gap.lineBreak '\n') read
  | c :: rest, mark, gap, read =>
      if isBlank c then
        if gap.broken && mark.column < s.indent && c == '\t' then
          .error (.problem .tabBelowIndentation mark (some (.plainScalar, s.start)))
        else readOn s rest (mark.forward 1) (gap.blank c) read
      else if isBreak c then
        readOn s rest (mark.nextLine 1) (gap.lineBreak (breakText c)) read
      else if gap.isSome && endsBefore s gap mark c rest then
        .ok ⟨read.reverse, ⟨c :: rest, mark⟩, gap.broken⟩
      else if s.flow && c == ':' && rest.head?.any fun d => isFlowPunctuation d || d == '?' then
        .error (.problem .colonInFlow mark (some (.plainScalar, s.start)))
      else if endsBefore s gap mark c rest then
        .ok ⟨read.reverse, ⟨c :: rest, mark⟩, gap.broken⟩
      else readOn s rest (mark.forward 1) .none (c :: (gap.text.reverse ++ read))

/-- Read the scalar that begins here. -/
def scan (flow : Bool) (indent : Nat) (i : Input) : Except Fault Result :=
  readOn ⟨flow, indent, i.mark⟩ i.chars i.mark .none []

end TreeListing.Yaml.Plain
