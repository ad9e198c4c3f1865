import Reckon.Decimal.Rescale

/-!
# Integral decimals

A decimal is integral if its value is an integer. Below the point there are then only zeros, so a
nonzero one has at least as many digits as its scale says, and `10 ^ scale` is formed only then.
Follows `is_integral`, `to_integer` and `integer_operand`.
-/

namespace Reckon.Decimal

/-- Whether the value is an integer. -/
def isIntegral (d : Decimal) : Bool :=
  d.scale.toInt ≤ 0 || d.unscaled = 0 ||
    (d.scale.toInt ≤ d.digits && d.unscaled.natAbs % 10 ^ d.scale.toInt.toNat = 0)

/-- The value as an integer, or nothing if it is none. It is an error if the integer has too many
zeros to be written out. -/
def toInteger (d : Decimal) : Except ArithmeticError (Option Int) :=
  if d.isIntegral then
    if d.scale.toInt ≤ 0 then (d.rescale .zero).map fun e => some e.unscaled
    else if d.unscaled = 0 then .ok (some 0)
    else .ok (some (d.unscaled.tdiv (10 ^ d.scale.toInt.toNat)))
  else .ok none

/-- The value as an integer, for an operation that takes nothing else. -/
def integerOperand (operation : String) (d : Decimal) : Except ArithmeticError Int := do
  match ← d.toInteger with
  | some n => return n
  | none => throw (.notIntegral operation d)

/-- A natural number that has to fit in so many bits. -/
def checkWidth (bits : Nat) (role : String) (n : Int) : Except ArithmeticError Nat :=
  if 0 ≤ n ∧ n < 2 ^ bits then .ok n.toNat else .error (.outOfRange role n)

/-- A magnitude that has to fit in so many bits; the sign does not matter. -/
def checkMagnitude (bits : Nat) (role : String) (n : Int) : Except ArithmeticError Nat :=
  if n.natAbs < 2 ^ bits then .ok n.natAbs else .error (.outOfRange role n)

end Reckon.Decimal
