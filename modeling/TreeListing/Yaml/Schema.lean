import TreeListing.Decimal.Shortest
import TreeListing.Text.Quoted
import TreeListing.Yaml.Event.Basic

/-!
# The type of a scalar

A plain scalar without a tag has the type that its text looks like: null, a boolean,
an integer, a floating point number, else text.  A tag of the schema demands its type.
-/

namespace TreeListing.Yaml

/-- What a scalar stands for. -/
inductive ScalarValue where
  | null
  | boolean (b : Bool)
  | integer (n : Int)
  /-- A number with a fractional part, or none at all, as it is written. -/
  | float (written : String)
  | text (s : String)
deriving DecidableEq, Repr

namespace ScalarValue

/-- The written form of a value together with its type.  Integers of more than 64 bits
are marked. -/
def shown : ScalarValue → String
  | null => "unit value"
  | boolean b => "boolean \x60" ++ (if b then "true" else "false") ++ "\x60"
  | integer n =>
      let mark :=
        if (Nat.pow 2 64 : Int) ≤ n then " as u128"
        else if n < -(Nat.pow 2 63 : Int) then " as i128"
        else ""
      "integer \x60" ++ toString n ++ "\x60" ++ mark
  | float written => "floating point \x60" ++ written ++ "\x60"
  | text s => "string " ++ Text.quoted s

/-! ## Numbers -/

/-- The value of a digit. -/
def digitValue? (base : Nat) (c : Char) : Option Nat :=
  (hexValue? c).filter (· < base)

/-- The number that one or more digits stand for. -/
def natural? (base : Nat) (digits : List Char) : Option Nat :=
  if digits.isEmpty then none
  else digits.foldlM (fun n c => (digitValue? base c).map (base * n + ·)) 0

/-- Whether a text is a number of several digits that begins with a zero.  It is taken
for text. -/
def hasLeadingZero (s : List Char) : Bool :=
  let digits := match s with
    | c :: rest => if c == '-' || c == '+' then rest else s
    | [] => []
  match digits with
  | '0' :: rest => !rest.isEmpty && rest.all Char.isDigit
  | _ => false

/-- A number without a sign; hexadecimal, octal and binary ones are announced. -/
def magnitude? : List Char → Option Nat
  | '0' :: 'x' :: digits => natural? 16 digits
  | '0' :: 'o' :: digits => natural? 8 digits
  | '0' :: 'b' :: digits => natural? 2 digits
  | digits => natural? 10 digits

/-- A number without a sign that fits in 128 bits. -/
def unsigned? (s : List Char) : Option Int :=
  (magnitude? s).bind fun n => if n < Nat.pow 2 128 then some (n : Int) else none

/-- The integer that a text stands for, if it fits in 128 bits. -/
def integer? (s : List Char) : Option Int :=
  if hasLeadingZero s then none
  else match s with
    | '-' :: rest =>
        (magnitude? rest).bind fun n => if n ≤ Nat.pow 2 127 then some (-(n : Int)) else none
    | '+' :: rest => unsigned? rest
    | rest => unsigned? rest

/-- The exponent that a text stands for. -/
def exponent? : List Char → Option Int
  | [] => some 0
  | e :: rest =>
      if e == 'e' || e == 'E' then
        match rest with
        | '-' :: digits => (natural? 10 digits).map fun n => -(n : Int)
        | '+' :: digits => (natural? 10 digits).map (↑·)
        | digits => (natural? 10 digits).map (↑·)
      else none

/-- The decimal number without a sign that a text stands for. -/
def decimal? (s : List Char) : Option Decimal :=
  let whole := s.takeWhile Char.isDigit
  let rest := s.drop whole.length
  let (places, rest) := match rest with
    | '.' :: after => (after.takeWhile Char.isDigit, after.dropWhile Char.isDigit)
    | _ => ([], rest)
  match natural? 10 (whole ++ places), exponent? rest with
  | some digits, some exponent => some ⟨digits, exponent - places.length⟩
  | _, _ => none

/-- A finite number as it is written, with its sign in front. -/
def writtenFloat? (sign : String) (s : List Char) : Option String :=
  (decimal? s).bind fun d =>
    (Binary.nearest? d).map fun x => sign ++ x.shortest.positional

/-- The floating point number that a text stands for, as it is written. -/
def float? (s : List Char) : Option String :=
  let unsigned := match s with
    | '+' :: rest => rest
    | _ => s
  if [".inf", ".Inf", ".INF"].contains (String.ofList unsigned) then some "inf"
  else if ["-.inf", "-.Inf", "-.INF"].contains (String.ofList s) then some "-inf"
  else if [".nan", ".NaN", ".NAN"].contains (String.ofList s) then some "NaN"
  else match s with
    | '-' :: rest => writtenFloat? "-" rest
    | _ => writtenFloat? "" unsigned

/-! ## Types -/

/-- Whether a text stands for null. -/
def isNull (s : String) : Bool :=
  ["null", "Null", "NULL", "~"].contains s

/-- The boolean that a text stands for. -/
def boolean? (s : String) : Option Bool :=
  if ["true", "True", "TRUE"].contains s then some true
  else if ["false", "False", "FALSE"].contains s then some false
  else none

/-- The value that a text looks like. -/
def ofPlain (chars : List Char) : ScalarValue :=
  let s := String.ofList chars
  if chars.isEmpty || isNull s then null
  else
    let float? := if hasLeadingZero chars then none else float? chars
    match boolean? s, integer? chars, float? with
    | some b, _, _ => boolean b
    | none, some n, _ => integer n
    | none, none, some x => float x
    | none, none, none => text s

/-- The full text of a tag of the schema. -/
def schemaTag (name : String) : Bytes :=
  Tag.schemaText ++ Text.bytes name

/-- The value of a scalar, or what its tag demands and its text is not. -/
def ofScalar (tag : Option Bytes) (chars : List Char) (plain : Bool) :
    Except String ScalarValue :=
  let s := String.ofList chars
  let demand (value : Option ScalarValue) (what : String) : Except String ScalarValue :=
    match value with
    | some v => .ok v
    | none => .error what
  match tag with
  | none => .ok (if plain then ofPlain chars else text s)
  | some t =>
      if t = schemaTag "bool" then demand ((boolean? s).map boolean) "a boolean"
      else if t = schemaTag "int" then demand ((integer? chars).map integer) "an integer"
      else if t = schemaTag "float" then demand ((float? chars).map float) "a float"
      else if t = schemaTag "null" then demand (if isNull s then some null else none) "null"
      else if plain && t.head? == some 0x21 then .ok (ofPlain chars)
      else .ok (text s)

end ScalarValue

end TreeListing.Yaml
