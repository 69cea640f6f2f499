/-!
# The nearest binary number

A decimal number is rounded to one with 53 binary digits, to the nearest and of two
equally near ones to the even.  All arithmetic is exact.
-/

namespace TreeListing

/-- The number `digits * 10 ^ exponent`. -/
structure Decimal where
  digits : Nat
  exponent : Int
deriving DecidableEq, Repr

/-- The number `significand * 2 ^ exponent`. -/
structure Binary where
  significand : Nat
  exponent : Int
deriving DecidableEq, Repr

/-- The power of two with an exponent, or one if it is negative. -/
def twos (e : Int) : Nat :=
  Nat.pow 2 e.toNat

/-- The power of ten with an exponent, or one if it is negative. -/
def tens (e : Int) : Nat :=
  Nat.pow 10 e.toNat

namespace Binary

/-- One more than the greatest significand. -/
def limit : Nat := twos 53

/-- The least exponent. -/
def leastExponent : Int := -1074

/-- The greatest exponent. -/
def greatestExponent : Int := 971

/-- The quotient rounded to the nearest integer, and to the even one of two. -/
def divide (n d : Nat) : Nat :=
  let q := n / d
  match compare (2 * (n % d)) d with
  | .lt => q
  | .gt => q + 1
  | .eq => q + q % 2

/-- `n / (d * 2 ^ e)` as a quotient of naturals. -/
def scale (n d : Nat) (e : Int) : Nat × Nat :=
  (n * twos (-e), d * twos e)

/-- The number nearest to a positive quotient, unless it is too large. -/
def ofQuotient (n d : Nat) : Option Binary :=
  let guess := max leastExponent ((n.log2 : Int) - d.log2 - 52)
  let (a, b) := scale n d guess
  let exponent := if a / b < limit / 2 then max leastExponent (guess - 1) else guess
  let (a, b) := scale n d exponent
  let rounded := divide a b
  let result : Binary :=
    if rounded < limit then ⟨rounded, exponent⟩ else ⟨rounded / 2, exponent + 1⟩
  if result.exponent ≤ greatestExponent then some result else none

/-- The number nearest to a decimal, unless it is too large.  Decimals of a magnitude
that is far out of range are told apart by their length. -/
def nearest? (x : Decimal) : Option Binary :=
  let magnitude := (toString x.digits).length + x.exponent
  if x.digits = 0 || magnitude < -400 then some ⟨0, leastExponent⟩
  else if 400 < magnitude then none
  else ofQuotient (x.digits * tens x.exponent) (tens (-x.exponent))

end Binary

end TreeListing
