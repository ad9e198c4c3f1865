import Reckon.Binary64.Shortest
import Reckon.Decimal.Division

/-!
# Decimals and binary64 numbers

A finite binary64 number becomes the decimal with the fewest digits that read back as it, with no
trailing zeros behind the point and no negative scale. Both zeros become `0`.

The way back rounds once for decimals of moderate length. Of a longer unscaled integer beside a
nonzero scale only the leading digits are used; a negative scale multiplies by a power of ten that
is itself formed in binary64; and a scale beyond 32 bits gives infinity, whichever its sign.

Follows `from_f64`, `to_f64` and `float_result` (specification, 4.5 and 10.6).
-/

namespace Reckon

namespace Binary64

/-- `result` times the powers `base ^ (2 ^ k)` for the bits of `n` that are set, from the lowest one
on, every product being rounded. -/
def powNat (base : Binary64) (n : Nat) (result : Binary64) : Binary64 :=
  if _h : n = 0 then result
  else powNat (base.mul base) (n / 2) (if n % 2 = 1 then result.mul base else result)
termination_by n
decreasing_by omega

/-- The binary64 number nearest to the decimal logarithm of two. -/
def log10Two : Binary64 := ⟨0x3FD34413509F79FF⟩

end Binary64

namespace Decimal

open Binary64

/-- The number of digits by which a long unscaled integer is cut in one step. -/
def cutLength : Nat := 19

/-- How often a long unscaled integer is cut: as often as it has 19 digits beyond the first 25, by
an estimate from the length of its binary form. -/
def cuts (magnitude : Nat) : Nat :=
  let length := magnitude.log2 + 1
  (((ofNat (length + 1)).mul log10Two).floorMagnitude - 25) / cutLength

/-- A number whose first digit stands this many places behind the point rounds to zero, and so does
one whose first digit stands even further behind. -/
def farBelow : Nat := 400

/-- The nearest binary64 number, within the limits above. -/
def toBinary64 (d : Decimal) : Binary64 :=
  let negative : Bool := d.unscaled < 0
  let magnitude := d.unscaled.natAbs
  if magnitude = 0 then Binary64.zero false
  else if d.scale.toInt = 0 then roundRatio negative magnitude 1
  else
    let k := cutLength * cuts magnitude
    let magnitude := magnitude / 10 ^ k
    let scale := d.scale.toInt - k
    if scale ≤ -2147483648 ∨ 2147483647 < scale then infinity negative
    else if scale ≤ 0 then
      let product := (ofNat magnitude).mul ((ofNat 10).powNat scale.natAbs (ofNat 1))
      if negative then product.neg else product
    else roundRatio negative magnitude (10 ^ min scale.toNat (numDigits magnitude + farBelow))

/-- The decimal of a finite binary64 number. -/
def ofBinary64? (x : Binary64) : Option Decimal :=
  if !x.isFinite then none
  else if x.magnitude = 0 then some zero
  else
    let digits := x.shortest
    let stripped := trailingZeros digits.coefficient
    let coefficient := digits.coefficient / 10 ^ stripped
    let place := digits.exponent + stripped
    (Scale.ofInt? (-min place 0)).map fun scale =>
      ⟨signed x.negative (coefficient * 10 ^ place.toNat), scale⟩

/-- The decimal of the result of an operation, which has to be finite. -/
def ofResult (operation : String) (x : Binary64) : Except ArithmeticError Decimal :=
  match ofBinary64? x with
  | some d => .ok d
  | none => .error (.notFinite operation)

end Decimal

end Reckon
