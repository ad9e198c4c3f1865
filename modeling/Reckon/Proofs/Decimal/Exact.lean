import Mathlib.Data.Sign.Basic
import Reckon.Proofs.Decimal.Rescale
import Reckon.Proofs.Decimal.Value

/-!
# Exact arithmetic

Sums, differences, products, remainders and natural powers are exact, and their scale follows from
the scales of the operands alone. Sums and products do not depend on the order of the operands, not
even in what makes them fail, and a sum can always be taken back.

Results:
* `rem_bounds`: the remainder is nearer to zero than the divisor, on the side of the dividend.
* `add_comm`, `mul_comm`: the operands may change places.
* `sub_of_add`: taking back what was added.
* `exactOn`: all of it together.
-/

namespace Reckon

theorem Scale.max_comm (s t : Scale) : max s t = max t s := by
  ext
  simp only [toInt_max]
  split_ifs <;> omega

theorem Scale.max_max (s t : Scale) : max (max s t) t = max s t := by
  ext
  simp only [toInt_max]
  split_ifs <;> omega

namespace Decimal

variable {a b c : Decimal}

/-! ## Remainders -/

/-- What truncation drops is less than one, and it has the sign of the number. -/
theorem sub_truncated (q : ℚ) : |q - truncated q| < 1 ∧ 0 ≤ (q - truncated q) * q := by
  unfold truncated
  have hfloor := Int.floor_le q
  have hlt := Int.lt_floor_add_one q
  have hceil := Int.le_ceil q
  have hceil_lt := Int.ceil_lt_add_one q
  split_ifs with hq
  · exact ⟨abs_lt.mpr ⟨by linarith, by linarith⟩, mul_nonneg (by linarith) hq⟩
  · refine ⟨abs_lt.mpr ⟨by linarith, by linarith⟩, ?_⟩
    exact mul_nonneg_of_nonpos_of_nonpos (by linarith) (by linarith)

/-- The remainder is nearer to zero than the divisor, and it is zero or has the sign of the
dividend. -/
theorem rem_bounds (h : a.rem b = .ok c) : |c.value| < |b.value| ∧
    (c.value = 0 ∨ SignType.sign c.value = SignType.sign a.value) := by
  obtain ⟨hb, hc, -⟩ := value_rem h
  obtain ⟨hone, hsign⟩ := sub_truncated (a.value / b.value)
  have ha : a.value = b.value * (a.value / b.value) := (mul_div_cancel₀ _ hb).symm
  have hrest : c.value = b.value * (a.value / b.value - truncated (a.value / b.value)) := by
    rw [mul_sub, ← ha, hc]
  constructor
  · calc |c.value| = |b.value| * |a.value / b.value - truncated (a.value / b.value)| := by
          rw [hrest, abs_mul]
      _ < |b.value| * 1 := mul_lt_mul_of_pos_left hone (abs_pos.mpr hb)
      _ = |b.value| := mul_one _
  · have hmul : 0 ≤ c.value * a.value := by
      calc 0 ≤ b.value ^ 2 *
            ((a.value / b.value - truncated (a.value / b.value)) * (a.value / b.value)) :=
            mul_nonneg (sq_nonneg _) hsign
        _ = c.value * a.value := by
          rw [hrest]
          conv_rhs => rw [ha]
          field_simp
    rcases lt_trichotomy a.value 0 with hneg | hzero | hpos
    · have hle : c.value ≤ 0 := nonpos_of_mul_nonneg_left hmul hneg
      exact hle.eq_or_lt.imp_right fun hlt => by rw [sign_neg hlt, sign_neg hneg]
    · left
      rw [hc, hzero, zero_div]
      simp [truncated]
    · have hle : 0 ≤ c.value := nonneg_of_mul_nonneg_left hmul hpos
      exact hle.eq_or_lt.imp Eq.symm fun hlt => by rw [sign_pos hlt, sign_pos hpos]

/-! ## Changing places -/

/-- Both operands are aligned alike, whichever comes first. -/
theorem align_comm (a b : Decimal) : align b a = (align a b).map Prod.swap := by
  rw [align_eq, align_eq, Scale.max_comm b.scale]
  cases ha : a.rescale (Scale.max a.scale b.scale) with
  | error e =>
    cases hb : b.rescale (Scale.max a.scale b.scale) with
    | error e' =>
      -- there is only one way to fail, so it does not matter which operand does
      rw [rescale_error ha, rescale_error hb]
      rfl
    | ok b' => rfl
  | ok a' => cases b.rescale (Scale.max a.scale b.scale) <;> rfl

protected theorem add_comm (a b : Decimal) : a.add b = b.add a := by
  rw [add, add, align_comm a b]
  cases h : align a b with
  | error e => rfl
  | ok p =>
    obtain ⟨-, -, hleft, hright⟩ := align_ok h
    show Except.ok (Decimal.mk (p.1.unscaled + p.2.unscaled) p.1.scale) =
      .ok ⟨p.2.unscaled + p.1.unscaled, p.2.scale⟩
    rw [hleft, hright, Int.add_comm]

protected theorem mul_comm (a b : Decimal) : a.mul b = b.mul a := by
  rw [mul, mul, Int.mul_comm, Int.add_comm]

/-- What was added can be taken back. -/
theorem sub_of_add (h : a.add b = .ok c) : ∃ d, c.sub b = .ok d ∧ d.value = a.value := by
  obtain ⟨hvalue, hscale⟩ := value_add h
  obtain ⟨p, hp, -⟩ := bind_ok h
  obtain ⟨_, -, hp⟩ := bind_ok hp
  obtain ⟨b', hb, -⟩ := bind_ok hp
  -- the sum has the larger scale already, and the summand could be brought to it
  have hmax : Scale.max c.scale b.scale = c.scale := by rw [hscale, Scale.max_max]
  rw [← hscale] at hb
  have hsub : c.sub b = .ok ⟨c.unscaled - b'.unscaled, c.scale⟩ := by
    rw [sub, align, hmax, rescale_self, hb]
    rfl
  exact ⟨_, hsub, by rw [(value_sub hsub).1, hvalue, add_sub_cancel_right]⟩

/-! ## All operations -/

/-- What the exact operations do to two decimals. -/
structure ExactOn (a b : Decimal) : Prop where
  add : ∀ c, a.add b = .ok c → c.value = a.value + b.value ∧ c.scale = Scale.max a.scale b.scale
  sub : ∀ c, a.sub b = .ok c → c.value = a.value - b.value ∧ c.scale = Scale.max a.scale b.scale
  mul : ∀ c, a.mul b = .ok c →
    c.value = a.value * b.value ∧ c.scale.toInt = a.scale.toInt + b.scale.toInt
  pow : ∀ (n : ℕ) c, a.pow n = .ok c →
    c.value = a.value ^ n ∧ c.scale.toInt = n * a.scale.toInt
  /-- This holds of zero as well. -/
  pow_zero : a.pow 0 = .ok one
  /-- There is no remainder by zero. -/
  rem : ∀ c, a.rem b = .ok c → b.value ≠ 0 ∧
    c.value = a.value - b.value * truncated (a.value / b.value) ∧ |c.value| < |b.value| ∧
    (c.value = 0 ∨ SignType.sign c.value = SignType.sign a.value) ∧
    c.scale = Scale.max a.scale b.scale
  /-- The operands may change places, also where there is no sum. -/
  add_comm : a.add b = b.add a
  mul_comm : a.mul b = b.mul a
  sub_of_add : ∀ c, a.add b = .ok c → ∃ d, c.sub b = .ok d ∧ d.value = a.value

/-- **Sums, differences, products, natural powers and remainders are exact**, each at the scale that
the operands give it. -/
theorem exactOn (a b : Decimal) : ExactOn a b where
  add _ := value_add
  sub _ := value_sub
  mul _ := value_mul
  pow n c h := by
    obtain ⟨hvalue, hscale⟩ := value_pow h
    exact ⟨hvalue, by rw [hscale, Int.mul_comm]⟩
  pow_zero := by
    rw [Decimal.pow, Nat.cast_zero, mul_zero, Int.pow_zero]
    rfl
  rem c h := by
    obtain ⟨hb, hvalue, hscale⟩ := value_rem h
    obtain ⟨hlt, hsign⟩ := rem_bounds h
    exact ⟨hb, hvalue, hlt, hsign, hscale⟩
  add_comm := Decimal.add_comm a b
  mul_comm := Decimal.mul_comm a b
  sub_of_add _ := sub_of_add

end Decimal

end Reckon
