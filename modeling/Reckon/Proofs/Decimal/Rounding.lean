import Mathlib.Algebra.Order.Floor.Semifield
import Reckon.Decimal.Rounding
import Reckon.Proofs.Decimal.Value

/-!
# Rounding is an operation on values

What `roundToScale` gives depends on the value of a decimal and on the scale asked for, not on the
scale that the decimal has. `RoundingMode.round` says on rational numbers what the modes say on
quotients of digits.

Results:
* `roundToScale_ok`: a decimal is brought to a scale by rounding its value, moved by that scale.
* `round_ceiling`, `round_down`: the mode `ceiling` gives the least integer that is not less, the mode
  `down` the integer part.
* `round_neg`: a number with the other sign is rounded by the opposite mode.
-/

namespace Reckon

namespace RoundingMode

/-- A nonnegative number rounded to an integer, the sign being that of the number it is the magnitude
of. -/
def magnitude (mode : RoundingMode) (negative : Bool) (x : ℚ) : ℕ :=
  if x - ⌊x⌋₊ ≠ 0 ∧ mode.raises negative ⌊x⌋₊ (compare (2 * (x - ⌊x⌋₊)) 1) then ⌊x⌋₊ + 1 else ⌊x⌋₊

/-- A number rounded to an integer. -/
def round (mode : RoundingMode) (q : ℚ) : ℤ :=
  Decimal.signed (q < 0) (mode.magnitude (q < 0) |q|)

theorem sub_floor_div (m : ℕ) {u : ℕ} (hu : 0 < u) :
    (m : ℚ) / u - ⌊(m : ℚ) / u⌋₊ = (m % u : ℕ) / u := by
  have hu' : (u : ℚ) ≠ 0 := by exact_mod_cast hu.ne'
  have hm : ((u * (m / u) + m % u : ℕ) : ℚ) = m := by rw [Nat.div_add_mod]
  rw [Nat.floor_div_eq_div, eq_div_iff hu', sub_mul, div_mul_cancel₀ _ hu', ← hm]
  push_cast
  ring

/-- The rounded quotient of two natural numbers. -/
theorem quotient_eq (mode : RoundingMode) (negative : Bool) (m : ℕ) {u : ℕ} (hu : 0 < u) :
    mode.quotient negative m u = mode.magnitude negative ((m : ℚ) / u) := by
  have hu' : (0 : ℚ) < u := by exact_mod_cast hu
  have hrest : (m : ℚ) / u - ⌊(m : ℚ) / u⌋₊ = 0 ↔ m % u = 0 := by
    rw [sub_floor_div m hu, div_eq_zero_iff, Nat.cast_eq_zero, or_iff_left hu'.ne']
  have hhalf : compare (2 * ((m : ℚ) / u - ⌊(m : ℚ) / u⌋₊)) 1 = compare (2 * (m % u)) u := by
    rw [sub_floor_div m hu, ← cmp_eq_compare, ← cmp_eq_compare,
      ← (Nat.strictMono_cast (α := ℚ)).cmp_map_eq, ← cmp_mul_pos_right hu', one_mul, mul_assoc,
      div_mul_cancel₀ _ hu'.ne', Nat.cast_mul, Nat.cast_ofNat]
  unfold quotient magnitude
  simp only [Ne, hrest, hhalf]
  simp only [Nat.floor_div_eq_div]

theorem magnitude_natCast (mode : RoundingMode) (negative : Bool) (n : ℕ) :
    mode.magnitude negative n = n := by
  unfold magnitude
  rw [if_neg, Nat.floor_natCast]
  rw [Nat.floor_natCast, sub_self]
  exact fun h => h.1 rfl

/-- An integer is left as it is. -/
theorem round_intCast (mode : RoundingMode) (n : ℤ) : mode.round n = n := by
  unfold round Decimal.signed
  rw [← Int.cast_abs, Int.abs_eq_natAbs, Int.cast_natCast, magnitude_natCast]
  simp only [decide_eq_true_iff, Int.cast_lt_zero]
  split_ifs <;> omega

/-- The mode that does to negative numbers what this one does to positive ones, and the other way
round. -/
def opposite : RoundingMode → RoundingMode
  | ceiling => floor
  | floor => ceiling
  | mode => mode

theorem raises_not (mode : RoundingMode) (negative : Bool) (kept : ℕ) (half : Ordering) :
    mode.raises (!negative) kept half = mode.opposite.raises negative kept half := by
  cases mode <;> simp [raises, opposite]

theorem magnitude_not (mode : RoundingMode) (negative : Bool) (x : ℚ) :
    mode.magnitude (!negative) x = mode.opposite.magnitude negative x := by
  simp only [magnitude, raises_not]

/-- **A number with the other sign** is rounded by the opposite mode. -/
theorem round_neg (mode : RoundingMode) (q : ℚ) : mode.round (-q) = -mode.opposite.round q := by
  by_cases h0 : q = 0
  · have hzero (mode : RoundingMode) : mode.round 0 = 0 := by
      rw [← Int.cast_zero, round_intCast]
    rw [h0, neg_zero, hzero, hzero, neg_zero]
  · have hsign : decide (-q < 0) = !decide (q < 0) := by
      rcases lt_or_gt_of_ne h0 with h | h
      · rw [decide_eq_true h, decide_eq_false (by linarith)]
        rfl
      · rw [decide_eq_true (neg_lt_zero.mpr h), decide_eq_false (by linarith)]
        rfl
    unfold round
    rw [abs_neg, hsign, magnitude_not]
    cases decide (q < 0) <;> simp [Decimal.signed]

/-- Two numbers below one half are rounded alike. -/
theorem magnitude_of_lt_half (mode : RoundingMode) (negative : Bool) {x y : ℚ} (hx : 0 < x)
    (hy : 0 < y) (hx' : 2 * x < 1) (hy' : 2 * y < 1) :
    mode.magnitude negative x = mode.magnitude negative y := by
  have hfx : ⌊x⌋₊ = 0 := Nat.floor_eq_zero.mpr (by linarith)
  have hfy : ⌊y⌋₊ = 0 := Nat.floor_eq_zero.mpr (by linarith)
  unfold magnitude
  rw [hfx, hfy, Nat.cast_zero, sub_zero, sub_zero, compare_lt_iff_lt.mpr hx',
    compare_lt_iff_lt.mpr hy']
  simp only [Ne, hx.ne', hy.ne']

/-- The mode `ceiling` gives the least integer that is not less. -/
theorem round_ceiling (q : ℚ) : RoundingMode.ceiling.round q = ⌈q⌉ := by
  unfold round magnitude Decimal.signed raises
  by_cases hq : q < 0
  · -- the integer part of the magnitude is kept
    have hfloor : (⌊-q⌋₊ : ℤ) = ⌊-q⌋ := Int.natCast_floor_eq_floor (by linarith)
    simp [hq, abs_of_neg hq, hfloor, Int.floor_neg]
  · rw [abs_of_nonneg (not_lt.mp hq)]
    have hfloor : (⌊q⌋₊ : ℤ) = ⌊q⌋ := Int.natCast_floor_eq_floor (not_lt.mp hq)
    have hcast : (⌊q⌋₊ : ℚ) = (⌊q⌋ : ℤ) := by exact_mod_cast hfloor
    have hle := Int.floor_le q
    have hlt := Int.lt_floor_add_one q
    simp only [hq, decide_false, Bool.not_false, and_true, Bool.false_eq_true, if_false, hcast]
    symm
    by_cases hr : q - (⌊q⌋ : ℤ) = 0
    · rw [if_neg (not_not.mpr hr), hfloor, Int.ceil_eq_iff]
      constructor <;> linarith
    · have hpos : 0 < q - (⌊q⌋ : ℤ) := lt_of_le_of_ne (by linarith) (Ne.symm hr)
      rw [if_pos hr, Nat.cast_add, hfloor, Int.ceil_eq_iff]
      push_cast
      constructor <;> linarith

/-- The mode `down` gives the integer part. -/
theorem round_down (q : ℚ) : RoundingMode.down.round q = Decimal.truncated q := by
  unfold round magnitude Decimal.signed raises Decimal.truncated
  by_cases hq : q < 0
  · have hfloor : (⌊-q⌋₊ : ℤ) = ⌊-q⌋ := Int.natCast_floor_eq_floor (by linarith)
    simp [hq, abs_of_neg hq, hfloor, Int.floor_neg]
  · have hfloor : (⌊q⌋₊ : ℤ) = ⌊q⌋ := Int.natCast_floor_eq_floor (not_lt.mp hq)
    simp [hq, abs_of_nonneg (not_lt.mp hq), hfloor]

end RoundingMode

namespace Decimal

/-- Beyond the digits that a number has, how many of them are dropped does not matter. -/
theorem quotient_clamped (mode : RoundingMode) (negative : Bool) (m gap : ℕ) :
    mode.quotient negative m (10 ^ min gap (numDigits m + 1)) =
      mode.quotient negative m (10 ^ gap) := by
  rcases le_total gap (numDigits m + 1) with h | h
  · rw [min_eq_left h]
  rw [min_eq_right h, RoundingMode.quotient_eq _ _ _ (by positivity),
    RoundingMode.quotient_eq _ _ _ (by positivity)]
  by_cases hm : m = 0
  · rw [hm, Nat.cast_zero, zero_div, zero_div]
  -- the quotient is less than one half in both cases
  have hlt (k : ℕ) (hk : numDigits m + 1 ≤ k) : 0 < (m : ℚ) / (10 ^ k : ℕ) ∧
      2 * ((m : ℚ) / (10 ^ k : ℕ)) < 1 := by
    have hpow : (0 : ℚ) < (10 ^ k : ℕ) := by positivity
    have hm' : (0 : ℚ) < m := by exact_mod_cast Nat.pos_of_ne_zero hm
    refine ⟨div_pos hm' hpow, ?_⟩
    rw [← mul_div_assoc, div_lt_one hpow]
    have hdigits := (numDigits_bounds (Nat.pos_of_ne_zero hm)).2
    have hle : 10 ^ (numDigits m + 1) ≤ 10 ^ k := Nat.pow_le_pow_right (by decide) hk
    have : 2 * m < 10 ^ k := by
      rw [Nat.pow_succ] at hle
      omega
    exact_mod_cast this
  obtain ⟨hx, hx'⟩ := hlt _ le_rfl
  obtain ⟨hy, hy'⟩ := hlt _ h
  exact RoundingMode.magnitude_of_lt_half mode negative hx hy hx' hy'

theorem dropDigits_eq {d : Decimal} {s : Scale} (h : s.toInt ≤ d.scale.toInt) (mode : RoundingMode) :
    (d.dropDigits s mode).unscaled = mode.round (d.value * 10 ^ s.toInt) := by
  have hpos := ten_zpow_pos s.toInt
  have hneg : d.value * 10 ^ s.toInt < 0 ↔ d.unscaled < 0 := by
    rw [← not_le, mul_nonneg_iff_of_pos_right hpos, value_nonneg, not_le]
  have habs : |d.value * 10 ^ s.toInt| =
      (d.unscaled.natAbs : ℚ) / (10 ^ (d.scale.toInt - s.toInt).toNat : ℕ) := by
    rw [abs_mul, abs_of_pos hpos, value, abs_mul, abs_of_pos (ten_zpow_pos _), mul_assoc,
      ← zpow_add₀ (by norm_num), Nat.cast_natAbs, Int.cast_abs, div_eq_mul_inv]
    push_cast
    rw [ten_zpow_toNat (by omega), ← zpow_neg]
    congr 2
    ring
  unfold dropDigits RoundingMode.round
  have hunit : 0 < 10 ^ (d.scale.toInt - s.toInt).toNat := by positivity
  simp only [digits, quotient_clamped, habs, ← RoundingMode.quotient_eq _ _ _ hunit, hneg]

/-- A decimal that has the scale already is left as it is. -/
theorem roundToScale_self (d : Decimal) (mode : RoundingMode) :
    d.roundToScale d.scale mode = .ok d := by
  have hunscaled : (d.dropDigits d.scale mode).unscaled = d.unscaled := by
    rw [dropDigits_eq le_rfl, value_mul_zpow, RoundingMode.round_intCast]
  rw [roundToScale, if_neg (lt_irrefl _)]
  exact congrArg (fun n => Except.ok (Decimal.mk n d.scale)) hunscaled

theorem trunc_ofInt (n : ℤ) : (ofInt n).trunc = .ok (ofInt n) := roundToScale_self (ofInt n) .down

/-- **Bringing a decimal to a scale** rounds its value, moved by that scale. -/
theorem roundToScale_ok {d e : Decimal} {s : Scale} {mode : RoundingMode}
    (h : d.roundToScale s mode = .ok e) :
    e.scale = s ∧ e.unscaled = mode.round (d.value * 10 ^ s.toInt) := by
  unfold roundToScale at h
  split_ifs at h with hs
  · obtain ⟨hscale, hv⟩ := rescale_ok h
    refine ⟨hscale, ?_⟩
    rw [← hv, ← hscale, value_mul_zpow, RoundingMode.round_intCast]
  · cases h
    exact ⟨rfl, dropDigits_eq (not_lt.mp hs) mode⟩

end Decimal

end Reckon
