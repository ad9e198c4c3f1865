import Reckon.Decimal.Basic

/-!
# Numeric order

Decimals are compared by value, so `1.0` equals `1.00`. The scales of two operands may be as far
apart as `2 ^ 64`, so the gap between them is never written out: values of one sign whose first
digits stand at different places differ already there, and otherwise the gap between the scales
is the difference of the digit counts. Follows the comparisons of `Decimal` (specification, 4.1).
-/

namespace Reckon.Decimal

/-- The order of `m * 10 ^ (-s)` and `n * 10 ^ (-t)` for positive `m` and `n`. -/
def compareMagnitudes (m : Nat) (s : Int) (n : Nat) (t : Int) : Ordering :=
  let first := compare ((numDigits m : Int) - s) ((numDigits n : Int) - t)
  if first = .eq then
    compare (m * 10 ^ (numDigits n - numDigits m)) (n * 10 ^ (numDigits m - numDigits n))
  else first

/-- The order of the values of two decimals. -/
def compareValues (a b : Decimal) : Ordering :=
  match compare a.unscaled.sign b.unscaled.sign with
  | .eq =>
    if a.unscaled = 0 then .eq
    else if 0 < a.unscaled then
      compareMagnitudes a.unscaled.natAbs a.scale b.unscaled.natAbs b.scale
    else
      compareMagnitudes b.unscaled.natAbs b.scale a.unscaled.natAbs a.scale
  | order => order

/-- Whether the two values are equal, whatever the scales. -/
def eqValue (a b : Decimal) : Bool := compareValues a b = .eq

/-- Whether the first value is less than the second. -/
def ltValue (a b : Decimal) : Bool := compareValues a b = .lt

/-- Whether the first value is at most the second. -/
def leValue (a b : Decimal) : Bool := compareValues a b ≠ .gt

end Reckon.Decimal
