import TreeListing.Yaml.Input

/-!
# Block scalars

A block scalar is introduced by a bar, which keeps its lines, or by an angle, which
folds them.  After the introduction may stand the depth of its indentation and what
becomes of the line breaks at its end.  Its lines are those indented deeply enough;
without a given depth the first line that is not blank decides.
-/

namespace TreeListing.Yaml.Block

/-! ## Lines of a text -/

/-- A line and the break that ends it, which the last line may lack. -/
structure TextLine where
  chars : List Char
  ending : List Char
deriving DecidableEq, Repr

namespace TextLine

/-- What the line's break reads as. -/
def breakText (l : TextLine) : List Char :=
  (l.ending.getLast?.map Yaml.breakText).toList

/-- The place behind a line that begins at `m`. -/
def next (l : TextLine) (m : Mark) : Mark :=
  let behind := m.forward l.chars.length
  if l.ending.isEmpty then behind else behind.nextLine l.ending.length

/-- The number of spaces that the line begins with. -/
def spaces (l : TextLine) : Nat :=
  (l.chars.takeWhile (· == ' ')).length

/-- A line that holds spaces only and is not the last. -/
def isBlank (l : TextLine) : Bool :=
  l.chars.all (· == ' ') && !l.ending.isEmpty

end TextLine

/-- The lines of a text. -/
def splitLines : List Char → List TextLine
  | [] => []
  | '\r' :: '\n' :: rest => ⟨[], ['\r', '\n']⟩ :: splitLines rest
  | c :: rest =>
      if isBreak c then ⟨[], [c]⟩ :: splitLines rest
      else match splitLines rest with
        | [] => [⟨[c], []⟩]
        | l :: ls => ⟨c :: l.chars, l.ending⟩ :: ls

/-! ## The introduction -/

/-- What becomes of the line breaks at the end: none is kept, the first, or all. -/
inductive Chomping where
  | strip
  | clip
  | keep
deriving DecidableEq, Repr

/-- What stands before the lines of a scalar. -/
structure Header where
  chomping : Chomping
  /-- The given depth of the indentation, relative to the parent's. -/
  depth : Option Nat
deriving DecidableEq, Repr

/-- The sign that says what becomes of the line breaks at the end, if it comes next. -/
def chompingSign (i : Input) : Option Chomping × Input :=
  if i.starts '+' then (some .keep, i.forward 1)
  else if i.starts '-' then (some .strip, i.forward 1)
  else (none, i)

/-- The digit that gives the depth of the indentation, if it comes next.  A depth of
zero is no depth. -/
def depthDigit (start : Mark) (i : Input) : Except Fault (Option Nat × Input) :=
  match i.chars with
  | c :: _ =>
      if c == '0' then .error (i.fault .zeroIndentation .blockScalar start)
      else if c.isDigit then .ok (some (c.toNat - '0'.toNat), i.forward 1)
      else .ok (none, i)
  | [] => .ok (none, i)

/-- Read the introduction after its first character, with the rest of its line. -/
def header (start : Mark) (i : Input) : Except Fault (Header × Input) := do
  let (before, i) := chompingSign i
  let (depth, i) ← depthDigit start i
  let (behind, i) := if before.isNone && depth.isSome then chompingSign i else (none, i)
  let i := (i.skip Yaml.isBlank).skipComment
  if breakOrEnd i.chars then
    .ok (⟨(before <|> behind).getD .clip, depth⟩, i.skipBreak)
  else .error (i.fault .noCommentOrBreak .blockScalar start)

/-! ## The lines -/

/-- A scalar that has been read, and what comes after it. -/
structure Result where
  text : List Char
  after : Input
deriving DecidableEq, Repr

/-- The indentation that the lines decide: that of the first line that is not blank,
of a blank line before it that is longer, or the least that `least` allows.  A tab
cannot be part of it. -/
def ownIndent (least : Nat) (start : Mark) :
    Nat → List TextLine → Mark → Except Fault Nat
  | deepest, [], _ => .ok (max deepest (max least 1))
  | deepest, l :: rest, m =>
      let deepest := max deepest l.spaces
      if l.isBlank then ownIndent least start deepest rest (l.next m)
      else if l.chars[l.spaces]? == some '\t' then
        .error (.problem .tabAsIndentation (m.forward l.spaces) (some (.blockScalar, start)))
      else .ok (max deepest (max least 1))

/-- A scalar whose lines are being read. -/
structure Reading where
  /-- The text read so far. -/
  text : List Char := []
  /-- What the break of the last line reads as. -/
  lastBreak : List Char := []
  /-- What the breaks of the empty lines after it read as. -/
  emptyBreaks : List Char := []
  /-- Whether the last line begins with a blank, which keeps the breaks around it. -/
  blankFirst : Bool := false

/-- Whether the break after the last line is folded when this line follows it. -/
def Reading.folds (r : Reading) (fold : Bool) (line : List Char) : Bool :=
  fold && r.lastBreak == ['\n'] && !r.blankFirst && !(line.head?.any Yaml.isBlank)

/-- With one line more. -/
def Reading.line (r : Reading) (fold : Bool) (line lineBreak : List Char) : Reading :=
  let join :=
    if r.folds fold line then
      if r.emptyBreaks.isEmpty then [' '] else r.emptyBreaks
    else r.lastBreak ++ r.emptyBreaks
  { text := r.text ++ join ++ line
    lastBreak := lineBreak
    blankFirst := line.head?.any Yaml.isBlank }

/-- With one empty line more. -/
def Reading.emptyLine (r : Reading) (lineBreak : List Char) : Reading :=
  { r with emptyBreaks := r.emptyBreaks ++ lineBreak }

/-- The whole text once the last line has been read. -/
def Reading.finish (r : Reading) : Chomping → List Char
  | .strip => r.text
  | .clip => r.text ++ r.lastBreak
  | .keep => r.text ++ r.lastBreak ++ r.emptyBreaks

/-- Read the lines that are indented by `indent`, and tell where they end. -/
def readLines (fold : Bool) (indent : Nat) (start : Mark) :
    List TextLine → Mark → Reading → Except Fault (Reading × Mark)
  | [], m, r => .ok (r, m)
  | l :: rest, m, r =>
      let spaces := min l.spaces indent
      let chars := l.chars.drop spaces
      if spaces < indent && chars.head? == some '\t' then
        .error (.problem .tabAsIndentation (m.forward spaces) (some (.blockScalar, start)))
      else if chars.isEmpty && !l.ending.isEmpty then
        readLines fold indent start rest (l.next m) (r.emptyLine l.breakText)
      else if spaces == indent && !chars.isEmpty then
        readLines fold indent start rest (l.next m) (r.line fold chars l.breakText)
      else .ok (r, m.forward spaces)

/-- Read the scalar whose introduction begins here.  `parent` is the column of the
collection that it stands in, if there is one. -/
def scan (fold : Bool) (parent : Option Nat) (i : Input) : Except Fault Result := do
  let start := i.mark
  let (head, i) ← header start (i.forward 1)
  let lines := splitLines i.chars
  let indent ← match head.depth with
    | some depth => .ok (parent.getD 0 + depth)
    | none => ownIndent ((parent.map (· + 1)).getD 0) start 0 lines i.mark
  let (reading, m) ← readLines fold indent start lines i.mark {}
  .ok ⟨reading.finish head.chomping, ⟨i.chars.drop (m.index - i.mark.index), m⟩⟩

end TreeListing.Yaml.Block
