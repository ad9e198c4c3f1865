import Reckon.Decimal.Arithmetic

/-!
# Division

A quotient keeps 34 significant digits, a half in the last place going to the even digit. An
exact quotient of fewer digits is written with as few trailing zeros as possible, but at no
smaller scale than that of the dividend less that of the divisor, its preferred scale: `1/2` is
`0.5` and `1.00/2` is `0.50`.

The quotient is first formed with at least 36 digits as an integer division. Whether anything is
left over is kept as a flag beside it, so that it is rounded once. Follows `checked_div`,
`round_significant`, `strip_zeros_to`, `normalized` and `powi` (specification, 4.1 and 10.7).
-/

namespace Reckon.Decimal

/-- The significant digits that an inexact quotient keeps. -/
def precision : Nat := 34

/-- The number of zeros at the end of `n`; zero ends in none. -/
def trailingZeros (n : Nat) : Nat :=
  if _h : n ≠ 0 ∧ n % 10 = 0 then trailingZeros (n / 10) + 1 else 0
termination_by n
decreasing_by omega

/-- Trailing zeros removed, as long as the scale stays at or above `least`. -/
def stripZeros (d : Decimal) (least : Scale) : Decimal :=
  let count := min (trailingZeros d.unscaled.natAbs) (d.scale.toInt - least.toInt).toNat
  match Scale.ofInt? (d.scale.toInt - count) with
  | some s => ⟨d.unscaled.tdiv (10 ^ count), s⟩
  | none => d

/-- Without trailing zeros; every zero becomes `0`. -/
def normalized (d : Decimal) : Decimal :=
  if d.unscaled = 0 then zero else d.stripZeros .least

/-- A nonnegative integer at a scale, rounded to `precision` digits. -/
structure Rounded where
  magnitude : Nat
  scale : Scale
  /-- Nothing but zeros was dropped. -/
  exact : Bool

/-- Rounds half-even to `precision` digits; `sticky` says that something nonzero was dropped
below `magnitude` already. There is no result if the scale does not fit in 64 bits. -/
def roundSignificant (magnitude : Nat) (scale : Scale) (sticky : Bool) : Option Rounded :=
  if numDigits magnitude ≤ precision then some ⟨magnitude, scale, !sticky⟩
  else
    let count := numDigits magnitude - precision
    let unit := 10 ^ count
    let kept := magnitude / unit
    let dropped := magnitude % unit
    let raised := match compare (2 * dropped) unit with
      | .gt => true
      | .eq => sticky || kept % 2 = 1
      | .lt => false
    let rounded := if raised then kept + 1 else kept
    let exact := dropped = 0 && !sticky
    (Scale.ofInt? (scale.toInt - count)).bind fun scale =>
      if precision < numDigits rounded then
        (Scale.ofInt? (scale.toInt - 1)).map fun scale => ⟨rounded / 10, scale, exact⟩
      else some ⟨rounded, scale, exact⟩

/-- How many zeros are appended to the dividend so that the quotient has digits enough. -/
def quotientShift (dividend divisor : Nat) : Nat :=
  precision + 2 + numDigits divisor - numDigits dividend

/-- The quotient, at no smaller scale than `preferred` if it is exact. -/
def quotient (a b : Decimal) (preferred : Scale) : Option Decimal :=
  let dividend := a.unscaled.natAbs
  let divisor := b.unscaled.natAbs
  let shift := quotientShift dividend divisor
  let shifted := dividend * 10 ^ shift
  (Scale.ofInt? (preferred.toInt + shift)).bind fun scale =>
    (roundSignificant (shifted / divisor) scale (shifted % divisor ≠ 0)).map fun r =>
      let sign := a.unscaled.sign * b.unscaled.sign
      let result : Decimal := ⟨sign * r.magnitude, r.scale⟩
      if r.exact then result.stripZeros preferred else result

/-- The quotient of two decimals. -/
def div (a b : Decimal) : Except ArithmeticError Decimal :=
  if b.unscaled = 0 then .error .divisionByZero
  else
    match Scale.ofInt? (a.scale.toInt - b.scale.toInt) with
    | none => .error .scaleOverflow
    | some preferred =>
      if a.unscaled = 0 then .ok ⟨0, preferred⟩
      else
        match quotient a b preferred with
        | some q => .ok q
        | none => .error .scaleOverflow

/-- The power with an integer exponent; a negative one divides one by the power with its
opposite. The exponent has to have at most 32 bits. -/
def powInt (a : Decimal) (n : Int) : Except ArithmeticError Decimal :=
  if n.natAbs ≤ 4294967295 then do
    let power ← a.pow n.natAbs
    if n < 0 then one.div power else return power
  else .error (.exponentOutOfRange (ofInt n))

end Reckon.Decimal
