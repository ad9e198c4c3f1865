import Reckon.Decimal.Rescale

/-!
# Rounding to a scale

`roundToScale` brings a decimal to a given scale: a larger one appends zeros, a smaller one drops
digits as the mode says. Dropping more digits than the number has leaves no quotient and a
remainder far below one half, so no power of ten beyond one digit more than the number has is
ever formed. Follows `round_to_scale`, `trunc`, `floor`, `ceil` and `round` (specification, 10.6).
-/

namespace Reckon

/-- What becomes of dropped digits that are not all zero. -/
inductive RoundingMode
  /-- Away from zero. -/
  | up
  /-- Toward zero. -/
  | down
  /-- Toward the larger value. -/
  | ceiling
  /-- Toward the smaller value. -/
  | floor
  /-- To the nearest, a half away from zero. -/
  | halfUp
  /-- To the nearest, a half toward zero. -/
  | halfDown
  /-- To the nearest, a half to the even digit. -/
  | halfEven
deriving DecidableEq

/-- Whether the kept digits `kept` are raised by one, given how the dropped part, which is not
zero, compares with one half. -/
def RoundingMode.raises (mode : RoundingMode) (negative : Bool) (kept : Nat) (half : Ordering) :
    Bool :=
  match mode with
  | .up => true
  | .down => false
  | .ceiling => !negative
  | .floor => negative
  | .halfUp => half ≠ .lt
  | .halfDown => half = .gt
  | .halfEven => half = .gt || (half = .eq && kept % 2 = 1)

/-- The integer `magnitude / unit` rounded by `mode`, the sign being that of the number. -/
def RoundingMode.quotient (mode : RoundingMode) (negative : Bool) (magnitude unit : Nat) : Nat :=
  let kept := magnitude / unit
  let dropped := magnitude % unit
  if dropped ≠ 0 ∧ mode.raises negative kept (compare (2 * dropped) unit) then kept + 1 else kept

namespace Decimal

/-- The last digits dropped, as many as bring the number to `scale`, which is not larger than its
own. -/
def dropDigits (d : Decimal) (scale : Scale) (mode : RoundingMode) : Decimal :=
  let magnitude := d.unscaled.natAbs
  let count := min (d.scale.toInt - scale.toInt).toNat (d.digits + 1)
  let negative : Bool := d.unscaled < 0
  ⟨signed negative (mode.quotient negative magnitude (10 ^ count)), scale⟩

/-- The decimal at the given scale. -/
def roundToScale (d : Decimal) (scale : Scale) (mode : RoundingMode) :
    Except ArithmeticError Decimal :=
  if d.scale.toInt < scale.toInt then d.rescale scale else .ok (d.dropDigits scale mode)

/-- The integer part. -/
def trunc (d : Decimal) : Except ArithmeticError Decimal := d.roundToScale .zero .down

/-- The largest integer that is not greater. -/
def floor (d : Decimal) : Except ArithmeticError Decimal := d.roundToScale .zero .floor

/-- The least integer that is not less. -/
def ceil (d : Decimal) : Except ArithmeticError Decimal := d.roundToScale .zero .ceiling

/-- The nearest integer, halves going away from zero. -/
def round (d : Decimal) : Except ArithmeticError Decimal := d.roundToScale .zero .halfUp

end Decimal

end Reckon
