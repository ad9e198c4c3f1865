import Reckon.Proofs.Decimal.Value
import Reckon.Decimal.Division
import Reckon.Decimal.Rounding
import Reckon.Proofs.Guarded.Text

/-!
# Guarded arithmetic

Rescaling appends zeros, so it is a partial operation: the new scale must not be smaller. What
calls it either compares the two scales first or takes the larger one. Every division is by a number
that was compared with zero before, or by a power of ten.

Results:
* `align_eq`, `roundToScale_eq`: no scale is lowered.
* `add_eq`, `sub_eq`: nor is it in sums and differences.
* `rem_eq`, `div_eq`, `powInt_eq`: no divisor is zero.
-/

namespace Reckon.Guarded

/-- A computation with arithmetic errors and faults. -/
abbrev Arithmetic (α : Type) := Guarded (Except ArithmeticError) α

/-- An arithmetic error. -/
def fail (error : ArithmeticError) : Except ArithmeticError α := .error error

/-! ## Scales -/

/-- The same value at a scale that must not be smaller. -/
def rescale (d : Decimal) (scale : Scale) : Arithmetic Decimal := do
  if scale.toInt < d.scale.toInt then throw (.loweredScale d.scale scale)
  d.rescale scale

/-- Both decimals at the larger of their scales. -/
def align (a b : Decimal) : Arithmetic (Decimal × Decimal) := do
  let scale := Scale.max a.scale b.scale
  let a ← rescale a scale
  let b ← rescale b scale
  return (a, b)

/-- The decimal at the given scale. -/
def roundToScale (d : Decimal) (scale : Scale) (mode : RoundingMode) : Arithmetic Decimal :=
  if d.scale.toInt < scale.toInt then rescale d scale else return d.dropDigits scale mode

theorem rescale_eq {d : Decimal} {scale : Scale} (h : d.scale.toInt ≤ scale.toInt) :
    rescale d scale = liftM (d.rescale scale) := by
  rw [rescale, if_neg (by omega)]

theorem align_eq (a b : Decimal) : align a b = liftM (a.align b) := by
  have hmax := Scale.toInt_max a.scale b.scale
  simp only [align, Decimal.align]
  rw [rescale_eq (by split at hmax <;> omega)]
  refine bind_liftM _ fun a' => ?_
  rw [rescale_eq (by split at hmax <;> omega)]
  exact bind_liftM _ fun b' => rfl

theorem roundToScale_eq (d : Decimal) (scale : Scale) (mode : RoundingMode) :
    roundToScale d scale mode = liftM (d.roundToScale scale mode) := by
  unfold roundToScale Decimal.roundToScale
  split
  · rename_i h
    exact rescale_eq (by omega)
  · rfl

/-! ## Sums and differences -/

/-- The sum, at the larger scale. -/
def add (a b : Decimal) : Arithmetic Decimal := do
  let (a, b) ← align a b
  return ⟨a.unscaled + b.unscaled, a.scale⟩

/-- The difference, at the larger scale. -/
def sub (a b : Decimal) : Arithmetic Decimal := do
  let (a, b) ← align a b
  return ⟨a.unscaled - b.unscaled, a.scale⟩

/-- What division leaves of the dividend. -/
def rem (a b : Decimal) : Arithmetic Decimal := do
  if b.unscaled = 0 then (throw .divisionByZero : Except ArithmeticError Unit)
  let (a, b) ← align a b
  let divisor ← nonzero b.unscaled
  return ⟨a.unscaled.tmod divisor, a.scale⟩

theorem add_eq (a b : Decimal) : add a b = liftM (a.add b) := by
  unfold add Decimal.add
  rw [align_eq]
  exact bind_liftM _ fun p => rfl

theorem sub_eq (a b : Decimal) : sub a b = liftM (a.sub b) := by
  unfold sub Decimal.sub
  rw [align_eq]
  exact bind_liftM _ fun p => rfl

/-- A divisor other than zero stays so at another scale. -/
theorem rem_eq (a b : Decimal) : rem a b = liftM (a.rem b) := by
  unfold rem Decimal.rem
  by_cases hb : b.unscaled = 0
  · rw [if_pos hb, if_pos hb]
    rfl
  rw [if_neg hb, if_neg hb, align_eq]
  refine bind_liftM_congr fun p hp => ?_
  have hdivisor : p.2.unscaled ≠ 0 := by
    rw [Ne, ← Decimal.value_eq_zero, (Decimal.align_ok hp).2.1, Decimal.value_eq_zero]
    exact hb
  simp only [nonzero_ok hdivisor]
  rfl

/-! ## Quotients -/

/-- A nonnegative integer rounded to the digits that a quotient keeps. -/
def roundSignificant (magnitude : Nat) (scale : Scale) (sticky : Bool) :
    Except Fault (Option Decimal.Rounded) :=
  if numDigits magnitude ≤ Decimal.precision then .ok (some ⟨magnitude, scale, !sticky⟩)
  else do
    let count ← subtract (numDigits magnitude) Decimal.precision
    let unit ← nonzero (10 ^ count)
    let kept := magnitude / unit
    let dropped := magnitude % unit
    let raised := match compare (2 * dropped) unit with
      | .gt => true
      | .eq => sticky || kept % 2 = 1
      | .lt => false
    let rounded := if raised then kept + 1 else kept
    let exact := dropped = 0 && !sticky
    return (Scale.ofInt? (scale.toInt - count)).bind fun scale =>
      if Decimal.precision < numDigits rounded then
        (Scale.ofInt? (scale.toInt - 1)).map fun scale => ⟨rounded / 10, scale, exact⟩
      else some ⟨rounded, scale, exact⟩

/-- The quotient, at no smaller scale than `preferred` if it is exact. -/
def quotient (a b : Decimal) (preferred : Scale) : Except Fault (Option Decimal) := do
  let dividend := a.unscaled.natAbs
  let divisor ← nonzero b.unscaled.natAbs
  let shift := Decimal.quotientShift dividend divisor
  let shifted := dividend * 10 ^ shift
  match Scale.ofInt? (preferred.toInt + shift) with
  | none => return none
  | some scale =>
    let rounded ← roundSignificant (shifted / divisor) scale (shifted % divisor ≠ 0)
    return rounded.map fun r =>
      let sign := a.unscaled.sign * b.unscaled.sign
      let result : Decimal := ⟨sign * r.magnitude, r.scale⟩
      if r.exact then result.stripZeros preferred else result

/-- The quotient of two decimals. -/
def div (a b : Decimal) : Arithmetic Decimal :=
  if b.unscaled = 0 then fail .divisionByZero
  else
    match Scale.ofInt? (a.scale.toInt - b.scale.toInt) with
    | none => fail .scaleOverflow
    | some preferred =>
      if a.unscaled = 0 then return ⟨0, preferred⟩
      else do
        match ← quotient a b preferred with
        | some q => return q
        | none => fail .scaleOverflow

/-- The power with an integer exponent. -/
def powInt (a : Decimal) (n : Int) : Arithmetic Decimal :=
  if n.natAbs ≤ 4294967295 then do
    let power ← a.pow n.natAbs
    if n < 0 then div .one power else return power
  else fail (.exponentOutOfRange (.ofInt n))

theorem roundSignificant_eq (magnitude : Nat) (scale : Scale) (sticky : Bool) :
    roundSignificant magnitude scale sticky =
      .ok (Decimal.roundSignificant magnitude scale sticky) := by
  unfold roundSignificant Decimal.roundSignificant
  split
  · rfl
  · have hunit : 10 ^ (numDigits magnitude - Decimal.precision) ≠ 0 :=
      Nat.pos_iff_ne_zero.mp (Nat.pow_pos (by decide))
    rw [subtract_ok (by omega), ok_bind, nonzero_ok hunit]
    rfl

theorem quotient_eq (a : Decimal) {b : Decimal} (hb : b.unscaled ≠ 0) (preferred : Scale) :
    quotient a b preferred = .ok (a.quotient b preferred) := by
  unfold quotient Decimal.quotient
  simp only [nonzero_ok (Int.natAbs_ne_zero.mpr hb), ok_bind, roundSignificant_eq]
  cases Scale.ofInt? _ <;> rfl

theorem div_eq (a b : Decimal) : div a b = liftM (a.div b) := by
  unfold div Decimal.div
  split
  · rfl
  rename_i hb
  cases Scale.ofInt? (a.scale.toInt - b.scale.toInt) with
  | none => rfl
  | some preferred =>
    simp only [quotient_eq a hb, liftM_ok, pure_bind]
    split
    · rfl
    · cases a.quotient b preferred <;> rfl

theorem powInt_eq (a : Decimal) (n : Int) : powInt a n = liftM (a.powInt n) := by
  unfold powInt Decimal.powInt
  split
  · refine bind_liftM _ fun power => ?_
    split
    · exact div_eq _ _
    · rfl
  · rfl

end Reckon.Guarded
