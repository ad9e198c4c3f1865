import Reckon.Proofs.Decimal.Rounding
import Reckon.Proofs.Evaluation.Record

/-!
# The number of steps of a range

The steps of a range are as many as there are numbers `first`, `first + 1`, … that are at most the
upper bound. A lower bound whose digits cannot be written out is counted as a single step; that step
fails, since the number after it cannot be formed either.

Results:
* `steps_eq`: how many steps a range has.
* `countable_of_run`: a range that succeeds has so many.
-/

namespace Reckon

namespace Decimal

variable {d : Decimal}

theorem value_of_scale_eq_zero (h : d.scale = .zero) : d.value = d.unscaled := by
  rw [value, h, Scale.toInt_zero, neg_zero, zpow_zero, mul_one]

theorem ceil_ok {c : Decimal} (h : d.ceil = .ok c) : c.unscaled = ⌈d.value⌉ := by
  obtain ⟨-, hc⟩ := roundToScale_ok h
  rw [hc, RoundingMode.round_ceiling, Scale.toInt_zero, zpow_zero, mul_one]

/-- A number that cannot be written out has no next one. -/
theorem add_one_of_ceil_error {error : ArithmeticError} (h : d.ceil = .error error) :
    ∃ error, d.add .one = .error error := by
  unfold ceil roundToScale at h
  by_cases hs : d.scale.toInt < Scale.zero.toInt
  · rw [if_pos hs] at h
    have hmax : Scale.max d.scale one.scale = .zero := by
      rw [Scale.max, if_pos (show d.scale.toInt ≤ one.scale.toInt from hs.le)]
      rfl
    refine ⟨error, ?_⟩
    rw [add, align, hmax, h]
    rfl
  · rw [if_neg hs] at h
    cases h

end Decimal

namespace Evaluation

variable {first last : Decimal}

/-- The steps of a range can be counted: its lower bound can be written out, or it has none. -/
def Countable (first last : Decimal) : Prop :=
  (∃ least, first.ceil = .ok least) ∨ last.value < first.value

/-- There are as many steps as numbers `first + k` that are at most `last`. -/
theorem steps_eq (hlast : last.scale = .zero) (h : Countable first last) :
    steps first last = (⌊last.value⌋ + 1 - ⌈first.value⌉).toNat := by
  rw [Decimal.value_of_scale_eq_zero hlast, Int.floor_intCast]
  unfold steps
  cases hceil : first.ceil with
  | ok least => rw [← Decimal.ceil_ok hceil]
  | error error =>
    obtain ⟨least, hleast⟩ | hlt := h
    · rw [hleast] at hceil
      cases hceil
    · have hle : ¬first.leValue last = true := by
        rw [Decimal.leValue_iff]
        exact not_le.mpr hlt
      have : last.unscaled < ⌈first.value⌉ := by
        rw [Int.lt_ceil, ← Decimal.value_of_scale_eq_zero hlast]
        exact hlt
      simp only [if_neg hle]
      omega

theorem countable_of_run {combine : Decimal → Decimal → Except ArithmeticError Decimal}
    {body : Evaluation Decimal} {start result : Decimal} {env env₁ : Environment}
    (h : repeatBody combine body (steps first last) first start env = .ok result env₁) :
    Countable first last := by
  by_contra hnot
  rw [Countable, not_or, not_lt] at hnot
  obtain ⟨hceil, hle⟩ := hnot
  cases herror : first.ceil with
  | ok least => exact hceil ⟨least, herror⟩
  | error error =>
    have hsteps : steps first last = 1 := by
      simp only [steps, herror, if_pos (Decimal.leValue_iff.mpr hle)]
    rw [hsteps, repeatBody] at h
    obtain ⟨-, _, -, h⟩ := bind_eq_ok h
    obtain ⟨value, _, -, h⟩ := bind_eq_ok h
    obtain ⟨sum, _, -, h⟩ := bind_eq_ok h
    obtain ⟨next, _, hnext, -⟩ := bind_eq_ok h
    obtain ⟨error, herror⟩ := Decimal.add_one_of_ceil_error herror
    rw [(lift_eq_ok hnext).1] at herror
    cases herror

end Evaluation

end Reckon
