import TreeListing.Text.Utf8
import TreeListing.Yaml.Input

/-!
# Tags

A tag names the type of a node.  It is written in full between angles, or as a handle
and the rest of its text, where the handle stands for the beginning.  An octet of the
text may be given in hexadecimal after a percent sign; octets given so have to come in
groups that could be one character, though nobody checks that they are.
-/

namespace TreeListing.Yaml

/-- A tag as it is written.  One written in full has an empty handle. -/
structure Tag where
  handle : List Char
  text : Bytes
deriving DecidableEq, Repr

namespace Tag

/-- A character of a tag's text.  The last three are allowed only where no flow
collection can go on after the tag. -/
def isTextChar (wide : Bool) (c : Char) : Bool :=
  isWord c || ";/?:@&=+$.!~*'()".toList.contains c || wide && ",[]".toList.contains c

/-- The number of octets of the character that an octet begins. -/
def octetCount? (octet : Nat) : Option Nat :=
  if octet < 0x80 then some 1
  else if octet < 0xC0 then none
  else if octet < 0xE0 then some 2
  else if octet < 0xF0 then some 3
  else if octet < 0xF8 then some 4
  else none

/-- Read a handle: an exclamation mark, or two with a word between them.  In a
directive the second one must not be missing after a word. -/
def scanHandle (inDirective : Bool) (start : Mark) (i : Input) :
    Except Fault (List Char × Input) :=
  if i.starts '!' then
    let word := (i.forward 1).run isWord
    let behind := i.forward (1 + word.length)
    if behind.starts '!' then .ok ('!' :: word ++ ['!'], behind.forward 1)
    else if inDirective && !word.isEmpty then
      .error (behind.fault .noExclamationMark .tagDirectiveHandleEnd start)
    else .ok ('!' :: word, behind)
  else
    .error (i.fault .noExclamationMark
      (if inDirective then .tagDirectiveHandle else .tag) start)

/-- Read on in a tag's text, with `missing` octets of a character still to come and the
octets read so far in reverse. -/
def readText (wide : Bool) (context : Context) (start : Mark) :
    Nat → List Char → Mark → Bytes → Except Fault (Bytes × Input)
  | missing, '%' :: a :: b :: rest, m, read =>
      let fault (what : Problem) : Fault := .problem what m (some (context, start))
      match hexValue? a, hexValue? b with
      | some high, some low =>
          let octet := 16 * high + low
          if missing = 0 then
            match octetCount? octet with
            | none => .error (fault .badFirstOctet)
            | some count =>
                readText wide context start (count - 1) rest (m.forward 3)
                  (UInt8.ofNat octet :: read)
          else if octet / 64 = 2 then
            readText wide context start (missing - 1) rest (m.forward 3)
              (UInt8.ofNat octet :: read)
          else .error (fault .badNextOctet)
      | _, _ => .error (fault .noEscapedOctet)
  | missing, c :: rest, m, read =>
      if missing ≠ 0 || c == '%' then
        .error (.problem .noEscapedOctet m (some (context, start)))
      else if isTextChar wide c then
        readText wide context start 0 rest (m.forward 1) (UInt8.ofNat c.toNat :: read)
      else .ok (read.reverse, ⟨c :: rest, m⟩)
  | missing, [], m, read =>
      if missing ≠ 0 then .error (.problem .noEscapedOctet m (some (context, start)))
      else .ok (read.reverse, ⟨[], m⟩)

/-- The octets before the first zero, which ends a tag's text. -/
def untilZero (text : Bytes) : Bytes :=
  text.takeWhile (· != 0)

/-- Read a tag's text, which must not be empty. -/
def scanText (wide : Bool) (context : Context) (start : Mark) (i : Input) :
    Except Fault (Bytes × Input) := do
  let (text, after) ← readText wide context start 0 i.chars i.mark []
  if text.isEmpty then .error (after.fault .noTagText context start)
  else .ok (untilZero text, after)

/-- The octets of ASCII characters. -/
def octets (chars : List Char) : Bytes :=
  chars.map fun c => UInt8.ofNat c.toNat

/-- Read a tag that is written with a handle.  A word after a lone exclamation mark is
the beginning of the text; the lone mark itself is a tag written in full. -/
def scanShorthand (start : Mark) (i : Input) : Except Fault (Tag × Input) := do
  let (handle, behind) ← scanHandle false start i
  if handle.length > 1 && handle.getLast? == some '!' then
    let (text, after) ← scanText false .tagText start behind
    .ok (⟨handle, text⟩, after)
  else
    let (more, after) ← readText false .tagText start 0 behind.chars behind.mark []
    let text := untilZero (octets handle.tail ++ more)
    .ok (if text.isEmpty then ⟨[], octets ['!']⟩ else ⟨['!'], text⟩, after)

/-- Read a tag that is written in full. -/
def scanVerbatim (start : Mark) (i : Input) : Except Fault (Tag × Input) := do
  let (text, behind) ← scanText true .tagText start (i.forward 2)
  if behind.starts '>' then .ok (⟨[], text⟩, behind.forward 1)
  else .error (behind.fault .noTagEnd .tag start)

/-- Read the tag that begins here.  A blank or a line break has to follow it, or in a
flow collection a comma. -/
def scan (flow : Bool) (i : Input) : Except Fault (Tag × Input) := do
  let start := i.mark
  let (tag, after) ←
    if (i.forward 1).starts '<' then scanVerbatim start i else scanShorthand start i
  if blankOrEnd after.chars || flow && after.starts ',' then .ok (tag, after)
  else .error (after.fault .noBlankOrBreak .tag start)

/-! ## Tags of the schema -/

/-- The beginning of the tags of the schema, for which two exclamation marks stand. -/
def schemaText : Bytes :=
  Text.bytes "tag:yaml.org,2002:"

/-- The handles that every document knows, and what they stand for. -/
def commonHandles : List (List Char × Bytes) :=
  [(['!'], Text.bytes "!"), (['!', '!'], schemaText)]

/-- The full text of a tag, if its handle is known. -/
def resolve? (handles : List (List Char × Bytes)) (t : Tag) : Option Bytes :=
  if t.handle.isEmpty then some t.text
  else (handles.lookup t.handle).map (· ++ t.text)

end Tag

end TreeListing.Yaml
