import Reckon.Decimal.Arithmetic

/-!
# When rescaling succeeds

A decimal can be brought to a scale that is at most `2 ^ 32 - 1` larger than its own; a nonzero one
cannot be brought to a scale that is larger by more. Zero takes no zeros, but the gap between the two
scales has to be a 64-bit number for it as well.

Results:
* `rescale_of_le`, `rescale_of_lt`: the two cases.
* `rescale_error_iff`: all scales that a decimal cannot be brought to.
* `zero_sub`: what becomes of a positive decimal behind a minus sign.
-/

namespace Reckon.Decimal

variable {d : Decimal} {s : Scale}

theorem rescale_of_le (h : d.scale.toInt ≤ s.toInt) (hgap : s.toInt - d.scale.toInt ≤ maxZeros) :
    d.rescale s = .ok ⟨d.unscaled * 10 ^ (s.toInt - d.scale.toInt).toNat, s⟩ := by
  have hmax : maxZeros = 4294967295 := rfl
  have hfits : -9223372036854775808 ≤ s.toInt - d.scale.toInt ∧
      s.toInt - d.scale.toInt ≤ 9223372036854775807 := by omega
  rw [rescale, Scale.ofInt?, dif_pos hfits]
  by_cases h0 : d.unscaled = 0
  · simp [h0]
  · simp only [if_neg h0]
    rw [if_pos ⟨by omega, hgap⟩]

theorem rescale_of_lt (h0 : d.unscaled ≠ 0) (hgap : maxZeros < s.toInt - d.scale.toInt) :
    d.rescale s = .error .scaleOverflow := by
  unfold rescale
  cases hfits : Scale.ofInt? (s.toInt - d.scale.toInt) with
  | none => rfl
  | some gap =>
    rw [← Scale.toInt_of_ofInt? hfits] at hgap
    simp only [if_neg h0]
    rw [if_neg (by omega)]

/-- Bringing the decimal to the scale takes more zeros than are appended. -/
def TooManyZeros (d : Decimal) (s : Scale) : Prop :=
  d.unscaled ≠ 0 ∧ maxZeros < s.toInt - d.scale.toInt

/-- The decimal cannot be brought to the scale. -/
def OutOfReach (d : Decimal) (s : Scale) : Prop :=
  d.TooManyZeros s ∨ 9223372036854775807 < s.toInt - d.scale.toInt

theorem not_outOfReach_of_le (h : s.toInt ≤ d.scale.toInt) : ¬ d.OutOfReach s := by
  have hmax : maxZeros = 4294967295 := rfl
  rintro (⟨-, hgap⟩ | hgap) <;> omega

theorem rescale_error {error : ArithmeticError} (h : d.rescale s = .error error) :
    error = .scaleOverflow := by
  unfold rescale at h
  split at h
  · cases h
    rfl
  · split at h
    · cases h
    · split at h <;> cases h
      rfl

/-- **When rescaling fails**, where the scale asked for is not the smaller one. -/
theorem rescale_error_iff (hle : d.scale.toInt ≤ s.toInt) :
    (∃ error, d.rescale s = .error error) ↔ d.OutOfReach s := by
  have hmax : maxZeros = 4294967295 := rfl
  unfold OutOfReach TooManyZeros rescale
  by_cases hfits : s.toInt - d.scale.toInt ≤ 9223372036854775807
  · rw [Scale.ofInt?, dif_pos ⟨by omega, hfits⟩]
    by_cases h0 : d.unscaled = 0
    · simp [h0, hfits]
    · by_cases hgap : s.toInt - d.scale.toInt ≤ maxZeros
      · simp [h0, hgap, hle, hfits]
      · simp [h0, hgap, Int.not_le.mp hgap]
  · rw [Scale.ofInt?, dif_neg (fun h => hfits h.2)]
    exact ⟨fun _ => .inr (by omega), fun _ => ⟨_, rfl⟩⟩

theorem align_eq (a b : Decimal) : align a b =
    a.rescale (Scale.max a.scale b.scale) >>= fun a' =>
      b.rescale (Scale.max a.scale b.scale) >>= fun b' => .ok (a', b') := rfl

/-- Zero can be brought to any scale. -/
theorem rescale_zero (s : Scale) : zero.rescale s = .ok ⟨0, s⟩ := by
  have hscale : s.toInt - zero.scale.toInt = s.toInt := Int.sub_zero _
  rw [rescale, hscale, Scale.ofInt?_toInt]
  rfl

theorem rescale_self (d : Decimal) : d.rescale d.scale = .ok d := by
  rw [rescale_of_le (Int.le_refl _) (by rw [Int.sub_self]; decide), Int.sub_self]
  simp

/-- Zero less a number: the number with the other sign, written out if its scale is negative. That
fails if it takes too many zeros. -/
theorem zero_sub (h0 : d.unscaled ≠ 0) : zero.sub d =
    if 0 ≤ d.scale.toInt then .ok d.neg
    else if -maxZeros ≤ d.scale.toInt then
      .ok ⟨-(d.unscaled * 10 ^ (-d.scale.toInt).toNat), .zero⟩
    else .error .scaleOverflow := by
  have hzero : zero.scale = .zero := rfl
  by_cases hs : 0 ≤ d.scale.toInt
  · have hmax : Scale.max zero.scale d.scale = d.scale := by
      rw [Scale.max, if_pos (show zero.scale.toInt ≤ d.scale.toInt from hs)]
    rw [if_pos hs, sub, align, hmax, rescale_zero, rescale_self]
    exact congrArg (fun n => Except.ok (Decimal.mk n d.scale)) (Int.zero_sub _)
  · -- the difference has scale 0, so all zeros of the number have to be written out
    have hmax : Scale.max zero.scale d.scale = .zero := by
      rw [Scale.max, if_neg (show ¬zero.scale.toInt ≤ d.scale.toInt from hs), hzero]
    rw [if_neg hs, sub, align, hmax, rescale_zero]
    by_cases hgap : -maxZeros ≤ d.scale.toInt
    · have hle : d.scale.toInt ≤ Scale.zero.toInt := by
        rw [Scale.toInt_zero]
        omega
      have hfar : Scale.zero.toInt - d.scale.toInt ≤ maxZeros := by
        rw [Scale.toInt_zero]
        omega
      rw [if_pos hgap, rescale_of_le hle hfar, Scale.toInt_zero, Int.zero_sub]
      exact congrArg (fun n => Except.ok (Decimal.mk n .zero)) (Int.zero_sub _)
    · have hfar : maxZeros < Scale.zero.toInt - d.scale.toInt := by
        rw [Scale.toInt_zero]
        omega
      rw [if_neg hgap, rescale_of_lt h0 hfar]
      rfl

end Reckon.Decimal
