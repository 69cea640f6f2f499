import TreeListing.Decimal.Nearest

/-!
# Shortest decimals

A binary number is written with the fewest decimal digits that read back as the same
number, and of several such decimals the nearest.  The decimals that read back are
those between the midpoints to the two neighbours, the midpoints included if the
significand is even.
-/

namespace TreeListing

/-- How `a * 10 ^ i` compares with `n * 2 ^ j`. -/
def Decimal.compareScaled (a : Nat) (i : Int) (n : Nat) (j : Int) : Ordering :=
  compare (a * tens i * twos (-j)) (n * twos j * tens (-i))

namespace Binary

/-- Whether a decimal reads as this number.  The neighbour below a power of two is
twice as near as the one above. -/
def reads (x : Binary) (d : Decimal) : Bool :=
  let near := x.significand == limit / 2 && x.exponent != leastExponent
  let low := 4 * x.significand - (if near then 1 else 2)
  let high := 4 * x.significand + 2
  let even := x.significand % 2 == 0
  let above := Decimal.compareScaled d.digits d.exponent low (x.exponent - 2)
  let below := Decimal.compareScaled d.digits d.exponent high (x.exponent - 2)
  (above == .gt || even && above == .eq) && (below == .lt || even && below == .eq)

/-- The number in units of `10 ^ e`, rounded down. -/
def floorAt (x : Binary) (e : Int) : Nat :=
  x.significand * twos x.exponent * tens (-e) / (twos (-x.exponent) * tens e)

/-- The multiple of `10 ^ e` next to the number that reads as it: of two the nearer,
and the upper one of two that are equally near. -/
def onGrid? (x : Binary) (e : Int) : Option Decimal :=
  let low : Decimal := ⟨x.floorAt e, e⟩
  let high : Decimal := ⟨low.digits + 1, e⟩
  match x.reads low, x.reads high with
  | true, true =>
      let middle := Decimal.compareScaled (2 * low.digits + 1) e (2 * x.significand) x.exponent
      some (if middle == .gt then low else high)
  | true, false => some low
  | false, true => some high
  | false, false => none

/-- The exponents of ten that may be a grid, the coarsest first. -/
def grids : List Int :=
  (List.range 650).map fun n : Nat => (310 : Int) - n

/-- The number itself as a decimal. -/
def exact (x : Binary) : Decimal :=
  ⟨x.significand * twos x.exponent * Nat.pow 5 (-x.exponent).toNat, min x.exponent 0⟩

/-- The shortest decimal that reads as this number. -/
def shortest (x : Binary) : Decimal :=
  if x.significand = 0 then ⟨0, 0⟩ else (grids.findSome? x.onGrid?).getD x.exact

end Binary

/-- A decimal written with a point and no exponent, with a digit at least on both
sides of the point. -/
def Decimal.positional (d : Decimal) : String :=
  let digits := (toString d.digits).toList
  if 0 ≤ d.exponent then
    String.ofList (digits ++ List.replicate d.exponent.toNat '0') ++ ".0"
  else
    let places := (-d.exponent).toNat
    let padded := List.replicate (places + 1 - digits.length) '0' ++ digits
    let whole := padded.length - places
    String.ofList (padded.take whole) ++ "." ++ String.ofList (padded.drop whole)

end TreeListing
