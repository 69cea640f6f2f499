import TreeListing.Yaml.Gap
import TreeListing.Yaml.Input

/-!
# Quoted scalars

A scalar in single or double quotes may go on over several lines, whose breaks are
folded.  In single quotes a quote is written twice.  In double quotes a backslash
begins an escape: a letter for a common character, a code point in hexadecimal, or a
line break that is to be left out together with the blanks after it.
-/

namespace TreeListing.Yaml.Quoted

/-- A scalar that has been read, and what comes after its closing quote. -/
structure Result where
  text : List Char
  after : Input
deriving DecidableEq, Repr

/-- The character that a backslash and a letter stand for. -/
def common? : Char → Option Char
  | '0' => some '\x00'
  | 'a' => some '\x07'
  | 'b' => some '\x08'
  | 't' => some '\t'
  | '\t' => some '\t'
  | 'n' => some '\n'
  | 'v' => some '\x0b'
  | 'f' => some '\x0c'
  | 'r' => some '\r'
  | 'e' => some '\x1b'
  | ' ' => some ' '
  | '"' => some '"'
  | '/' => some '/'
  | '\\' => some '\\'
  | 'N' => some '\u0085'
  | '_' => some '\u00a0'
  | 'L' => some '\u2028'
  | 'P' => some '\u2029'
  | _ => none

/-- The number of digits after a letter that begins a code point. -/
def digitCount? : Char → Option Nat
  | 'x' => some 2
  | 'u' => some 4
  | 'U' => some 8
  | _ => none

/-- The number that hexadecimal digits stand for, if all of them are digits. -/
def hexNumber? (digits : List Char) : Option Nat :=
  digits.foldlM (fun n c => (hexValue? c).map (16 * n + ·)) 0

/-- The character with a code point, unless the code point is out of range or half of
a pair. -/
def character? (n : Nat) : Option Char :=
  if h : n.isValidChar then some (Char.ofNatAux n h) else none

/-- An escape, given what comes after its backslash: the character it stands for, and
the number of characters that it takes there.  A problem with a code point is found
behind the letter, any other at the backslash. -/
def escape (after : List Char) : Except (Problem × Nat) (Char × Nat) :=
  match after with
  | [] => .error (.unknownEscape, 0)
  | letter :: rest =>
      match common? letter, digitCount? letter with
      | some c, _ => .ok (c, 1)
      | none, none => .error (.unknownEscape, 0)
      | none, some count =>
          let digits := rest.take count
          match (if digits.length = count then hexNumber? digits else none) with
          | none => .error (.noHexDigit, 2)
          | some n =>
              match character? n with
              | none => .error (.badCodePoint, 2)
              | some c => .ok (c, 1 + count)

/-- Whether a text goes on with a line break. -/
def breakAhead : List Char → Bool
  | [] => false
  | c :: _ => isBreak c

/-- Read on after the next `skip` characters, with the text read so far in reverse and
the white space after it. -/
def readOn (quote : Char) (start : Mark) :
    Nat → List Char → Mark → Gap → List Char → Except Fault Result
  | _, [], mark, _, _ => .error (.problem .endOfText mark (some (.quotedScalar, start)))
  | skip + 1, _ :: rest, mark, gap, read => readOn quote start skip rest mark gap read
  | 0, c :: rest, mark, gap, read =>
      if isBreak c then
        let width := if c == '\r' && rest.head? == some '\n' then 2 else 1
        readOn quote start (width - 1) rest (mark.nextLine width)
          (gap.lineBreak (breakText c)) read
      else if mark.column == 0 && documentMarkerAhead (c :: rest) then
        .error (.problem .documentMarker mark (some (.quotedScalar, start)))
      else if isBlank c then
        readOn quote start 0 rest (mark.forward 1) (gap.blank c) read
      else
        let read := gap.text.reverse ++ read
        if c == quote then
          if quote == '\'' && rest.head? == some quote then
            readOn quote start 1 rest (mark.forward 2) .none (c :: read)
          else .ok ⟨read.reverse, ⟨rest, mark.forward 1⟩⟩
        else if quote == '"' && c == '\\' then
          if breakAhead rest then
            let width := if rest.take 2 == ['\r', '\n'] then 2 else 1
            readOn quote start width rest ((mark.forward 1).nextLine width) .escaped read
          else
            match escape rest with
            | .ok (d, taken) =>
                readOn quote start taken rest (mark.forward (1 + taken)) .none (d :: read)
            | .error (what, place) =>
                .error (.problem what (mark.forward place) (some (.quotedEscape, start)))
        else readOn quote start 0 rest (mark.forward 1) .none (c :: read)

/-- Read the scalar whose opening quote stands here. -/
def scan (quote : Char) (i : Input) : Except Fault Result :=
  readOn quote i.mark 0 (i.chars.drop 1) (i.mark.forward 1) .none []

end TreeListing.Yaml.Quoted
