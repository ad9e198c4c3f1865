import Reckon.Decimal.Rescale

/-!
# Exact arithmetic

Sums, differences and remainders are formed at the larger scale of their operands, products at
the sum of the scales, natural powers at the multiple of the scale. None of them rounds; each
fails only if the scale it needs is out of reach. Follows `checked_add`, `checked_sub`,
`checked_mul`, `checked_rem` and `pow` (specification, 4.1).
-/

namespace Reckon.Decimal

/-- The sum, at the larger scale. -/
def add (a b : Decimal) : Except ArithmeticError Decimal := do
  let (a, b) ← align a b
  return ⟨a.unscaled + b.unscaled, a.scale⟩

/-- The difference, at the larger scale. -/
def sub (a b : Decimal) : Except ArithmeticError Decimal := do
  let (a, b) ← align a b
  return ⟨a.unscaled - b.unscaled, a.scale⟩

/-- The product, at the sum of the scales. -/
def mul (a b : Decimal) : Except ArithmeticError Decimal :=
  make (a.unscaled * b.unscaled) (a.scale.toInt + b.scale.toInt)

/-- What is left of `a` after taking `b` away as often as the quotient, truncated toward zero,
says. The sign is that of `a`, the scale the larger one. -/
def rem (a b : Decimal) : Except ArithmeticError Decimal := do
  if b.unscaled = 0 then throw .divisionByZero
  let (a, b) ← align a b
  return ⟨a.unscaled.tmod b.unscaled, a.scale⟩

/-- The power with a natural exponent, at the multiple of the scale. -/
def pow (a : Decimal) (n : Nat) : Except ArithmeticError Decimal :=
  match Scale.ofInt? (a.scale.toInt * n) with
  | some s => .ok ⟨a.unscaled ^ n, s⟩
  | none => .error .exponentTooLarge

end Reckon.Decimal
