import Reckon.Decimal.Error

/-!
# Rescaling

A decimal of scale `s` is also one of any larger scale `t`, with `t - s` zeros appended to its
unscaled integer. The gap between the scales has to be a 64-bit number, and unless the value is
zero no more than `2 ^ 32 - 1` zeros are appended. Follows `aligned` and `rescaled`.
-/

namespace Reckon.Decimal

/-- The most zeros that rescaling appends. -/
def maxZeros : Int := 4294967295

/-- The decimal of this scale, if it fits in 64 bits. -/
def make (unscaled scale : Int) : Except ArithmeticError Decimal :=
  match Scale.ofInt? scale with
  | some s => .ok ⟨unscaled, s⟩
  | none => .error .scaleOverflow

/-- The same value at the given scale. -/
def rescale (d : Decimal) (scale : Scale) : Except ArithmeticError Decimal :=
  match Scale.ofInt? (scale.toInt - d.scale.toInt) with
  | none => .error .scaleOverflow
  | some gap =>
    if d.unscaled = 0 then .ok ⟨0, scale⟩
    else if 0 ≤ gap.toInt ∧ gap.toInt ≤ maxZeros then
      .ok ⟨d.unscaled * 10 ^ gap.toInt.toNat, scale⟩
    else .error .scaleOverflow

/-- Both decimals at the larger of their scales. -/
def align (a b : Decimal) : Except ArithmeticError (Decimal × Decimal) := do
  let scale := Scale.max a.scale b.scale
  let a ← a.rescale scale
  let b ← b.rescale scale
  return (a, b)

end Reckon.Decimal
