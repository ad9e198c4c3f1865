import Mathlib.Algebra.BigOperators.Intervals
import Mathlib.Data.Nat.Factorial.Basic
import Reckon.Evaluation.Operator
import Reckon.Proofs.Decimal.Integral

/-!
# Sums and products of many numbers

What comes out of adding or multiplying the numbers of a list one after the other. For consecutive
integers it is half of `n * (n - 1)` or a factorial. For equal factors it is a power, also where it
fails: the scale of the product so far moves in one direction only, so one of them does not fit in
64 bits just if the last one does not.

Results:
* `factorial_ofInt`, `power_ofInt`: the operations in one step.
* `foldlM_mul_replicate`, `foldlM_mul_numbers`, `foldlM_add_numbers`: the same in many.
-/

namespace Reckon

/-- A scale that has left the range of scales does not come back in the same direction. -/
theorem Scale.not_fits_add_mul (s : Scale) {t : ℤ} (h : ¬Scale.Fits (s.toInt + t)) (n : ℕ) :
    ¬Scale.Fits (s.toInt + t * (n + 1 : ℕ)) := by
  have hs := s.fits
  have hn : (1 : ℤ) ≤ (n + 1 : ℕ) := by omega
  unfold Scale.Fits at *
  rcases le_total 0 t with ht | ht
  · have := le_mul_of_one_le_right ht hn
    omega
  · have := mul_le_of_one_le_right ht hn
    omega

namespace Decimal

/-! ## Exact operations on integers -/

theorem ofInt_add (m n : ℤ) : (ofInt m).add (ofInt n) = .ok (ofInt (m + n)) := by
  have hmax : Scale.max (ofInt m).scale (ofInt n).scale = .zero := rfl
  have hm : (ofInt m).rescale .zero = .ok (ofInt m) := rescale_self (ofInt m)
  have hn : (ofInt n).rescale .zero = .ok (ofInt n) := rescale_self (ofInt n)
  rw [add, align_eq, hmax, hm, hn]
  rfl

theorem ofInt_mul (m n : ℤ) : (ofInt m).mul (ofInt n) = .ok (ofInt (m * n)) := rfl

theorem factorialOf_eq (n : ℕ) : factorialOf n = n.factorial := by
  induction n with
  | zero => rfl
  | succ n ih =>
    rw [factorialOf, List.range_succ, List.foldl_append, ← factorialOf, ih, List.foldl_cons,
      List.foldl_nil, Nat.factorial_succ, Nat.mul_comm]

/-- An integer at scale zero is written out already. -/
theorem toInteger_ofInt (n : ℤ) : (ofInt n).toInteger = .ok (some n) :=
  toInteger_eq_some_iff.mpr (isInteger_ofInt n)

/-- **The factorial** of a number that fits in 64 bits. -/
theorem factorial_ofInt {n : ℕ} (hn : n < 2 ^ 64) :
    (ofInt n).factorial = .ok (ofInt n.factorial) := by
  have hoperand : (ofInt n).integerOperand "factorial" = .ok (n : ℤ) := by
    rw [integerOperand, toInteger_ofInt, ok_bind]
    rfl
  have hwidth : checkWidth 64 "factorial operand" n = .ok n := by
    rw [checkWidth, if_pos (by omega), Int.toNat_natCast]
  have hnonneg : ¬(n : ℤ) < 0 := by omega
  rw [factorial, hoperand, ok_bind, if_neg hnonneg, hwidth, ← factorialOf_eq]
  rfl

/-- An integral exponent of at most 32 bits gives a natural power. -/
theorem power_ofInt {n : ℕ} (hn : n < 2 ^ 32) (d : Decimal) : d.power (ofInt n) = d.pow n := by
  have hrange : ¬((n : ℤ) < -2 ^ 63 ∨ 2 ^ 63 ≤ (n : ℤ)) := by omega
  have hwidth : n ≤ 4294967295 := by omega
  have hnonneg : ¬(n : ℤ) < 0 := by omega
  rw [power, toInteger_ofInt, ok_bind]
  simp only [if_neg hrange, powInt, Int.natAbs_natCast, if_pos hwidth, if_neg hnonneg]
  exact bind_pure (d.pow n)

theorem toOption_pow (d : Decimal) (n : ℕ) : (d.pow n).toOption =
    (Scale.ofInt? (d.scale.toInt * n)).map fun s => ⟨d.unscaled ^ n, s⟩ := by
  rw [pow]
  cases Scale.ofInt? (d.scale.toInt * n) <;> rfl

/-! ## Products so far -/

/-- A number times a power, if its scale fits in 64 bits. -/
def mulPow (a d : Decimal) (n : ℕ) : Option Decimal :=
  (Scale.ofInt? (a.scale.toInt + d.scale.toInt * n)).map fun s => ⟨a.unscaled * d.unscaled ^ n, s⟩

theorem mulPow_zero (a d : Decimal) : mulPow a d 0 = some a := by
  rw [mulPow, Nat.cast_zero, mul_zero, add_zero, Scale.ofInt?_toInt, Option.map_some, Int.pow_zero,
    mul_one]

theorem mulPow_one (d : Decimal) (n : ℕ) : mulPow one d n = (d.pow n).toOption := by
  have hscale : one.scale.toInt + d.scale.toInt * n = d.scale.toInt * n := zero_add _
  have hunscaled : one.unscaled * d.unscaled ^ n = d.unscaled ^ n := one_mul _
  rw [mulPow, hscale, hunscaled, toOption_pow]

/-- The scale of a product moves in one direction only: if it does not fit after one factor, it does
not fit after more of them. -/
theorem mulPow_succ (a d : Decimal) (n : ℕ) :
    mulPow a d (n + 1) = (a.mul d).toOption.bind fun product => mulPow product d n := by
  rw [mul, make]
  cases hs : Scale.ofInt? (a.scale.toInt + d.scale.toInt) with
  | some s =>
    have hscale : a.scale.toInt + d.scale.toInt * (n + 1 : ℕ) = s.toInt + d.scale.toInt * n := by
      rw [Scale.toInt_of_ofInt? hs]
      push_cast
      ring
    have hunscaled : a.unscaled * d.unscaled ^ (n + 1) =
        a.unscaled * d.unscaled * d.unscaled ^ n := by
      ring
    rw [mulPow, hscale, hunscaled]
    rfl
  | none =>
    have hfits := Scale.ofInt?_eq_none.mp hs
    have hnone : Scale.ofInt? (a.scale.toInt + d.scale.toInt * (n + 1 : ℕ)) = none :=
      Scale.ofInt?_eq_none.mpr (a.scale.not_fits_add_mul hfits n)
    rw [mulPow, hnone]
    rfl

/-- The product of so many equal factors. -/
theorem foldlM_mul_replicate (a d : Decimal) (n : ℕ) :
    ((List.replicate n d).foldlM mul a).toOption = mulPow a d n := by
  induction n generalizing a with
  | zero => exact (mulPow_zero a d).symm
  | succ n ih =>
    rw [List.replicate_succ, List.foldlM_cons, mulPow_succ]
    cases a.mul d with
    | error e => rfl
    | ok product => exact ih product

/-! ## Consecutive integers -/

/-- The integers `m`, `m + 1`, …, so many of them. -/
def numbers (m : ℤ) (count : ℕ) : List Decimal :=
  (List.range count).map fun k : ℕ => ofInt (m + k)

theorem length_numbers (m : ℤ) (count : ℕ) : (numbers m count).length = count := by
  rw [numbers, List.length_map, List.length_range]

theorem numbers_succ (m : ℤ) (count : ℕ) :
    numbers m (count + 1) = ofInt m :: numbers (m + 1) count := by
  rw [numbers, List.range_succ_eq_map, List.map_cons, List.map_map, Nat.cast_zero, add_zero,
    numbers]
  congr 2
  funext k
  simp only [Function.comp_apply, Nat.cast_succ]
  ring_nf

theorem foldlM_mul_numbers (n : ℕ) : (numbers 1 n).foldlM mul one = .ok (ofInt n.factorial) := by
  induction n with
  | zero => rfl
  | succ n ih =>
    have hproduct : (n.factorial : ℤ) * (1 + n) = (n + 1).factorial := by
      rw [Nat.factorial_succ]
      push_cast
      ring
    rw [numbers, List.range_succ, List.map_append, List.foldlM_append, ← numbers, ih, ok_bind,
      List.map_singleton, List.foldlM_cons, ofInt_mul, ok_bind, hproduct]
    rfl

theorem foldlM_add_numbers (n : ℕ) :
    (numbers 0 n).foldlM add zero = .ok (ofInt (∑ k ∈ Finset.range n, k : ℕ)) := by
  induction n with
  | zero => rfl
  | succ n ih =>
    have hsum : ((∑ k ∈ Finset.range n, k : ℕ) : ℤ) + (0 + n) =
        (∑ k ∈ Finset.range (n + 1), k : ℕ) := by
      rw [Finset.sum_range_succ]
      push_cast
      ring
    rw [numbers, List.range_succ, List.map_append, List.foldlM_append, ← numbers, ih, ok_bind,
      List.map_singleton, List.foldlM_cons, ofInt_add, ok_bind, hsum]
    rfl

end Decimal

end Reckon
