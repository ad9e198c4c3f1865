import Reckon.Decimal.Integral
import Reckon.Decimal.Rounding
import Reckon.Proofs.Decimal.Exact

/-!
# Scales within reach

Sums, differences and remainders need both operands at the larger of their scales, rounding to a
larger scale and taking an integer need one operand at the scale in question. Each of these operations
fails just where an operand cannot be brought there: if that takes more than `2 ^ 32 - 1` zeros, or
if the gap between the scales is no 64-bit number. The second holds up zero as well, though it takes
no zeros at any scale.

Results:
* `align_error_iff`: when two decimals have no common scale.
* `error_iff_outOfReach`: when each of the operations fails.
* `zero_outOfReach`: a zero that no operation can bring to the scale it needs.
-/

namespace Reckon.Decimal

variable {a b : Decimal}

/-- The operands have no common scale. -/
def Apart (a b : Decimal) : Prop :=
  a.OutOfReach (Scale.max a.scale b.scale) ∨ b.OutOfReach (Scale.max a.scale b.scale)

theorem align_error_iff : (∃ error, align a b = .error error) ↔ a.Apart b := by
  have hleft : a.scale.toInt ≤ (Scale.max a.scale b.scale).toInt := by
    rw [Scale.toInt_max]
    split_ifs <;> omega
  have hright : b.scale.toInt ≤ (Scale.max a.scale b.scale).toInt := by
    rw [Scale.toInt_max]
    split_ifs <;> omega
  rw [Apart, ← rescale_error_iff hleft, ← rescale_error_iff hright, align_eq]
  cases ha : a.rescale (Scale.max a.scale b.scale) with
  | error e => exact ⟨fun _ => .inl ⟨e, rfl⟩, fun _ => ⟨e, rfl⟩⟩
  | ok a' =>
    exact bind_ok_error_iff.trans (or_iff_right fun ⟨_, h⟩ => nomatch h).symm

theorem add_error_iff : (∃ error, a.add b = .error error) ↔ a.Apart b :=
  bind_ok_error_iff.trans align_error_iff

theorem sub_error_iff : (∃ error, a.sub b = .error error) ↔ a.Apart b :=
  bind_ok_error_iff.trans align_error_iff

theorem rem_error_iff (hb : b.unscaled ≠ 0) : (∃ error, a.rem b = .error error) ↔ a.Apart b := by
  rw [rem, if_neg hb]
  exact bind_ok_error_iff.trans align_error_iff

theorem roundToScale_error_iff {s : Scale} {mode : RoundingMode} :
    (∃ error, a.roundToScale s mode = .error error) ↔ a.OutOfReach s := by
  unfold roundToScale
  split_ifs with hs
  · exact rescale_error_iff hs.le
  · exact iff_of_false (fun ⟨_, h⟩ => nomatch h) (not_outOfReach_of_le (not_lt.mp hs))

theorem toInteger_error_iff (hi : a.isIntegral = true) :
    (∃ error, a.toInteger = .error error) ↔ a.OutOfReach .zero := by
  rw [toInteger, if_pos hi]
  split_ifs with hs h0
  · rw [← rescale_error_iff hs]
    exact bind_ok_error_iff
  all_goals
    have hpos : Scale.zero.toInt ≤ a.scale.toInt := by
      rw [Scale.toInt_zero]
      omega
    exact iff_of_false (fun ⟨_, h⟩ => nomatch h) (not_outOfReach_of_le hpos)

/-- **When rescaling makes an operation fail**: just where an operand cannot be brought to the scale
that the operation needs. -/
theorem error_iff_outOfReach (a b : Decimal) (s : Scale) (mode : RoundingMode) :
    ((∃ error, a.add b = .error error) ↔ a.Apart b) ∧
    ((∃ error, a.sub b = .error error) ↔ a.Apart b) ∧
    (b.unscaled ≠ 0 → ((∃ error, a.rem b = .error error) ↔ a.Apart b)) ∧
    ((∃ error, a.roundToScale s mode = .error error) ↔ a.OutOfReach s) ∧
    (a.isIntegral = true → ((∃ error, a.toInteger = .error error) ↔ a.OutOfReach .zero)) :=
  ⟨add_error_iff, sub_error_iff, rem_error_iff, roundToScale_error_iff, toInteger_error_iff⟩

/-- One zero more than is appended. -/
theorem error_iff_outOfReach_digits :
    let a : Decimal := ⟨1, ⟨-4294967296, by decide, by decide⟩⟩
    let b : Decimal := ofInt 3
    b.unscaled ≠ 0 ∧ a.isIntegral = true ∧ a.OutOfReach .zero ∧ a.Apart b ∧
      (∃ error, a.rem b = .error error) ∧ ∃ error, a.toInteger = .error error := by
  intro a b
  have hb : b.unscaled ≠ 0 := by decide
  have hi : a.isIntegral = true := rfl
  have hreach : a.OutOfReach .zero := .inl ⟨by decide, by decide⟩
  have hapart : a.Apart b := .inl hreach
  obtain ⟨-, -, hrem, -, hinteger⟩ := error_iff_outOfReach a b .zero .down
  exact ⟨hb, hi, hreach, hapart, (hrem hb).mpr hapart, (hinteger hi).mpr hreach⟩

/-- A zero that takes no zeros, but whose scale is too far from the one it is needed at. -/
theorem zero_outOfReach :
    let zero : Decimal := ⟨0, .least⟩
    let one : Decimal := ⟨100, ⟨2, by decide, by decide⟩⟩
    (¬ zero.TooManyZeros (Scale.max zero.scale one.scale) ∧
      ¬ one.TooManyZeros (Scale.max zero.scale one.scale) ∧
      zero.add one = .error .scaleOverflow ∧ one.sub zero = .error .scaleOverflow ∧
      zero.rem one = .error .scaleOverflow) ∧
    ¬ zero.TooManyZeros .zero ∧ zero.roundToScale .zero .down = .error .scaleOverflow ∧
      zero.isIntegral = true ∧ zero.toInteger = .error .scaleOverflow :=
  ⟨⟨fun h => h.1 rfl, fun h => absurd h.2 (by decide), rfl, rfl, rfl⟩, fun h => h.1 rfl, rfl, rfl,
    rfl⟩

end Reckon.Decimal
