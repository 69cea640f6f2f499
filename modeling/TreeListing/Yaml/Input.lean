import TreeListing.Yaml.Fault

/-!
# Reading a YAML text

The classes of characters that reading asks about, and the text still to be read
together with its mark.  Every line break counts as one line, a carriage return with a
line feed after it too; in what is read, breaks other than the two separators of
Unicode become line feeds.
-/

namespace TreeListing.Yaml

/-- Space or tab. -/
def isBlank (c : Char) : Bool :=
  c == ' ' || c == '\t'

/-- A character that ends a line. -/
def isBreak (c : Char) : Bool :=
  c == '\r' || c == '\n' || c == '\u0085' || c == '\u2028' || c == '\u2029'

/-- Whether a text ends or goes on with a line break. -/
def breakOrEnd : List Char → Bool
  | [] => true
  | c :: _ => isBreak c

/-- Whether a text ends or goes on with a blank or a line break. -/
def blankOrEnd : List Char → Bool
  | [] => true
  | c :: _ => isBlank c || isBreak c

/-- An ASCII letter or digit, an underscore or a hyphen. -/
def isWord (c : Char) : Bool :=
  c.isAlphanum || c == '_' || c == '-'

/-- The value of a hexadecimal digit. -/
def hexValue? (c : Char) : Option Nat :=
  if c.isDigit then some (c.toNat - '0'.toNat)
  else if 'a' ≤ c && c ≤ 'f' then some (c.toNat - 'a'.toNat + 10)
  else if 'A' ≤ c && c ≤ 'F' then some (c.toNat - 'A'.toNat + 10)
  else none

/-- The characters that a text may hold. -/
def isAllowed (c : Char) : Bool :=
  let n := c.toNat
  n == 0x9 || n == 0xA || n == 0xD || (0x20 ≤ n && n ≤ 0x7E) || n == 0x85
    || (0xA0 ≤ n && n ≤ 0xD7FF) || (0xE000 ≤ n && n ≤ 0xFFFD) || 0x10000 ≤ n

/-- What a line break reads as. -/
def breakText (c : Char) : Char :=
  if c == '\u2028' || c == '\u2029' then c else '\n'

/-- Whether a line starts with three of these characters that stand alone. -/
def marker (c : Char) : List Char → Bool
  | a :: b :: d :: rest => a == c && b == c && d == c && blankOrEnd rest
  | _ => false

/-- Whether a line starts with a document marker. -/
def documentMarkerAhead (chars : List Char) : Bool :=
  marker '-' chars || marker '.' chars

/-- The text still to be read, and its place. -/
structure Input where
  chars : List Char
  mark : Mark
deriving DecidableEq, Repr, Inhabited

namespace Input

/-- Go on by `n` characters of the same line. -/
def forward (i : Input) (n : Nat) : Input :=
  ⟨i.chars.drop n, i.mark.forward n⟩

/-- The longest run of characters in a class that holds no line break. -/
def run (i : Input) (p : Char → Bool) : List Char :=
  i.chars.takeWhile p

/-- Go on past such a run. -/
def skip (i : Input) (p : Char → Bool) : Input :=
  i.forward (i.run p).length

/-- Whether the next character is this one. -/
def starts (i : Input) (c : Char) : Bool :=
  i.chars.head? == some c

/-- Go on past a line break, if one comes next. -/
def skipBreak (i : Input) : Input :=
  match i.chars with
  | '\r' :: '\n' :: rest => ⟨rest, i.mark.nextLine 2⟩
  | c :: rest => if isBreak c then ⟨rest, i.mark.nextLine 1⟩ else i
  | [] => i

/-- Go on past blanks and a comment, up to the end of the line. -/
def skipComment (i : Input) : Input :=
  if i.starts '#' then i.skip (!isBreak ·) else i

/-- A fault here, in something that began at `start`. -/
def fault (i : Input) (what : Problem) (context : Context) (start : Mark) : Fault :=
  .problem what i.mark (some (context, start))

end Input

end TreeListing.Yaml
