import TreeListing.Text.Combining
import TreeListing.Text.Printable
import TreeListing.Text.Utf8

/-!
# Quoted text

A text in double quotes, for messages that show a value exactly.  The quote, the
backslash and the common control characters get two-character escapes; characters that
combine with the one before them, and characters that do not print, are given by code
point.  Bytes that are no text are given in hexadecimal.
-/

namespace TreeListing.Text

/-- A number in hexadecimal, in lower case and without leading zeros. -/
def hexadecimal (n : Nat) : String :=
  String.ofList (Nat.toDigits 16 n)

/-- A byte as two upper-case hexadecimal digits. -/
def hexByte (b : UInt8) : String :=
  String.ofList ([b / 16, b % 16].map fun d => (Nat.digitChar d.toNat).toUpper)

/-- A character inside quotes. -/
def escapeChar (c : Char) : String :=
  if c = '\x00' then "\\0"
  else if c = '\t' then "\\t"
  else if c = '\r' then "\\r"
  else if c = '\n' then "\\n"
  else if c = '"' then "\\\""
  else if c = '\\' then "\\\\"
  else if combining.contains c || !printable c then
    "\\u\x7b" ++ hexadecimal c.toNat ++ "\x7d"
  else c.toString

/-- A text in quotes. -/
def quoted (s : String) : String :=
  "\"" ++ String.join (s.toList.map escapeChar) ++ "\""

/-- A byte sequence in quotes. -/
def quotedBytes (b : Bytes) : String :=
  "\"" ++ String.join ((pieces b).map fun
    | .char c => escapeChar c
    | .invalid bytes => String.join (bytes.map fun x => "\\x" ++ hexByte x)) ++ "\""

end TreeListing.Text
