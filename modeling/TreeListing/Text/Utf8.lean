/-!
# Bytes and text

File names and file contents are bytes, which may or may not be the UTF-8 form of a
text.  Bytes that are not are cut into pieces: characters, and maximal runs of bytes
that begin a character but do not complete it.  To show such bytes, each run becomes
one replacement character.
-/

namespace TreeListing

/-- A sequence of bytes. -/
abbrev Bytes := List UInt8

namespace Text

/-- The UTF-8 form of a text. -/
def bytes (s : String) : Bytes :=
  s.toUTF8.data.toList

/-- The text that the bytes are the UTF-8 form of, if there is one. -/
def ofBytes? (b : Bytes) : Option String :=
  String.fromUTF8? ⟨b.toArray⟩

@[simp] theorem ofBytes?_bytes (s : String) : ofBytes? (bytes s) = some s := by
  simp [ofBytes?, bytes, String.fromUTF8?, String.toUTF8, s.isValidUTF8]
  rfl

/-- A piece of a byte sequence. -/
inductive Piece where
  | char (c : Char)
  /-- Bytes that are no character, and that no character begins with more of. -/
  | invalid (bytes : Bytes)
deriving DecidableEq, Repr

/-- The bytes of a piece. -/
def Piece.bytes : Piece → Bytes
  | char c => Text.bytes c.toString
  | invalid bytes => bytes

/-- The number of bytes of the character that a byte begins, with the range that its
second byte has to be in; nothing for a byte that begins no character. -/
def leads (b : UInt8) : Option (Nat × UInt8 × UInt8) :=
  if b < 0x80 then some (1, 0, 0)
  else if b < 0xC2 then none
  else if b < 0xE0 then some (2, 0x80, 0xBF)
  else if b = 0xE0 then some (3, 0xA0, 0xBF)
  else if b = 0xED then some (3, 0x80, 0x9F)
  else if b < 0xF0 then some (3, 0x80, 0xBF)
  else if b = 0xF0 then some (4, 0x90, 0xBF)
  else if b < 0xF4 then some (4, 0x80, 0xBF)
  else if b = 0xF4 then some (4, 0x80, 0x8F)
  else none

/-- The longest part of the next `n` bytes that continues a character: the first byte
in the given range, the others in the range of all continuation bytes. -/
def continuation (n : Nat) (low high : UInt8) : Bytes → Bytes
  | [] => []
  | b :: rest =>
      match n with
      | 0 => []
      | n + 1 =>
          if low ≤ b && b ≤ high then b :: continuation n 0x80 0xBF rest else []

/-- The piece that a byte begins, with the number of bytes it has after the first. -/
def firstPiece (b : UInt8) (rest : Bytes) : Piece × Nat :=
  match leads b with
  | none => (.invalid [b], 0)
  | some (size, low, high) =>
      let tail := continuation (size - 1) low high rest
      if tail.length + 1 = size then
        let head := if size = 1 then b.toNat else b.toNat % Nat.pow 2 (7 - size)
        (.char (Char.ofNat (tail.foldl (fun n c => n * 64 + c.toNat % 64) head)), tail.length)
      else (.invalid (b :: tail), tail.length)

/-- The pieces of the bytes after the next `skip`. -/
def piecesAfter : Nat → Bytes → List Piece
  | _, [] => []
  | skip + 1, _ :: rest => piecesAfter skip rest
  | 0, b :: rest =>
      let (piece, length) := firstPiece b rest
      piece :: piecesAfter length rest

/-- The pieces of a byte sequence. -/
def pieces (b : Bytes) : List Piece :=
  piecesAfter 0 b

/-- A byte sequence as text; in bytes that are no text, every invalid piece becomes one
replacement character. -/
def lossy (b : Bytes) : String :=
  match ofBytes? b with
  | some s => s
  | none => String.ofList ((pieces b).map fun
      | .char c => c
      | .invalid _ => Char.ofNat 0xFFFD)

@[simp] theorem lossy_bytes (s : String) : lossy (bytes s) = s := by
  simp [lossy]

end Text

end TreeListing
