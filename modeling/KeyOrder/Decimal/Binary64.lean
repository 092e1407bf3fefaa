/-!
# Double precision numbers

A finite double is `significand * 2 ^ exponent` with a significand below `2 ^ 53` and an exponent
from `-1074` to `971`. A fraction is rounded to the nearest double, a half to the even
significand, and a double is written with **the fewest decimal digits that are read back as the
same double**, and of those the nearest ones. All arithmetic is exact.
-/

namespace KeyOrder

/-- A finite double that is not negative. -/
structure Binary64 where
  significand : Nat
  exponent : Int
deriving DecidableEq, Repr

/-- The decimal number `digits * 10 ^ exponent`. -/
structure Decimal where
  digits : Nat
  exponent : Int
deriving DecidableEq, Repr

/-- The fraction `(numerator, denominator)` of `n * base ^ exponent`. -/
def scaledFraction (n base : Nat) (exponent : Int) : Nat × Nat :=
  if 0 ≤ exponent then (n * Nat.pow base exponent.toNat, 1)
  else (n, Nat.pow base (-exponent).toNat)

/-- The whole number nearest to a fraction, of two the even one. -/
def roundHalfEven (numerator denominator : Nat) : Nat :=
  let quotient := numerator / denominator
  let twice := 2 * (numerator % denominator)
  if twice < denominator then quotient
  else if denominator < twice then quotient + 1
  else quotient + quotient % 2

namespace Binary64

/-- Least exponent of a double. -/
def minExponent : Int := -1074

/-- Greatest exponent of a double. -/
def maxExponent : Int := 971

/-- Rounds a fraction to the nearest double; there is none if it is too large. -/
def ofFraction? (numerator denominator : Nat) : Option Binary64 :=
  if numerator = 0 then some ⟨0, 0⟩
  else
    -- The quotient lies between `2 ^ (estimate - 1)` and `2 ^ (estimate + 1)`.
    let estimate : Int := (numerator.log2 : Int) - (denominator.log2 : Int)
    let below : Bool :=
      let (n, d) := scaledFraction denominator 2 estimate
      numerator * d < n
    let binade := if below then estimate - 1 else estimate
    let exponent := max minExponent (binade - 52)
    let (scale, unscale) := scaledFraction 1 2 exponent
    let significand := roundHalfEven (numerator * unscale) (denominator * scale)
    let (significand, exponent) :=
      if significand = Nat.pow 2 53 then (Nat.pow 2 52, exponent + 1) else (significand, exponent)
    if maxExponent < exponent then none else some ⟨significand, exponent⟩

/-- The double as a fraction. -/
def fraction (x : Binary64) : Nat × Nat := scaledFraction x.significand 2 x.exponent

/-- Whether the double is a whole number. -/
def isWhole (x : Binary64) : Bool :=
  let (n, d) := x.fraction
  n % d = 0

/-- Whether the fraction `n / d` is read back as the double: it lies in the interval around it whose
ends are half way to its neighbours, the ends counting for an even significand. -/
def covers (x : Binary64) (n d : Nat) : Bool :=
  -- Ends of the interval in units of a quarter of the last place.
  let narrow := x.significand = Nat.pow 2 52 && minExponent < x.exponent
  let low := if narrow then 4 * x.significand - 1 else 4 * x.significand - 2
  let high := 4 * x.significand + 2
  let (scale, unscale) := scaledFraction 1 2 (x.exponent - 2)
  let value := n * unscale
  let (low, high) := (low * scale * d, high * scale * d)
  if x.significand % 2 = 0 then low ≤ value && value ≤ high else low < value && value < high

/-- The multiple of `10 ^ exponent` next to the double that is read back as it; of two the nearer.
-/
def onGrid? (x : Binary64) (exponent : Int) : Option Decimal :=
  let (n, d) := x.fraction
  let (unit, part) := scaledFraction 1 10 exponent
  -- The double is `quotient / (d * unit)` grid units.
  let quotient := n * part
  let lower := quotient / (d * unit)
  let upper := lower + 1
  let fits (k : Nat) : Bool := x.covers (k * unit) part
  match 0 < lower && fits lower, fits upper with
  | true, true =>
    if 2 * (quotient % (d * unit)) ≤ d * unit then some ⟨lower, exponent⟩
    else some ⟨upper, exponent⟩
  | true, false => some ⟨lower, exponent⟩
  | false, true => some ⟨upper, exponent⟩
  | false, false => none

/-- The first hit on a grid, from the grid of `10 ^ exponent` on to finer ones. -/
def searchGrids (x : Binary64) (exponent : Int) : Nat → Option Decimal
  | 0 => none
  | fuel + 1 =>
    match x.onGrid? exponent with
    | some decimal => some decimal
    | none => searchGrids x (exponent - 1) fuel

/-- The fewest digits that are read back as the double. -/
def shortest (x : Binary64) : Decimal :=
  if x.significand = 0 then ⟨0, 0⟩
  else
    let (n, d) := x.fraction
    -- No smaller than the decimal exponent of the double: one digit stands for ten bits at least.
    let top : Int := ((n.log2 : Int) - (d.log2 : Int)) * 30103 / 100000 + 2
    (x.searchGrids top 24).getD ⟨n, 0⟩

end Binary64

/-- A decimal in positional notation, without an exponent. -/
def Decimal.positional (x : Decimal) : String :=
  let digits := Nat.toDigits 10 x.digits
  if 0 ≤ x.exponent then
    if x.digits = 0 then "0" else String.ofList (digits ++ List.replicate x.exponent.toNat '0')
  else
    let places := (-x.exponent).toNat
    let padded := List.replicate (places + 1 - digits.length) '0' ++ digits
    let whole := padded.take (padded.length - places)
    String.ofList (whole ++ '.' :: padded.drop (padded.length - places))

end KeyOrder
