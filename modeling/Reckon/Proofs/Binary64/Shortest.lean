import Reckon.Proofs.Decimal.Value
import Reckon.Binary64.Shortest

/-!
# The range of shortest digits

The digits that a binary64 number is written with are one of the two neighbours of the number among
the multiples of a power of ten that is not greater than the number. So they are not zero, and their
exponent lies in the range of the numbers themselves.

Results:
* `pow_firstPlace_le`: the place of the first digit.
* `Neighbour.pos`: the neighbours are not zero.
* `shortest_range`: how large the digits and the exponent are.
-/

namespace Reckon.Binary64

/-- The power of ten at the place of the first digit, or at a lower one, is not greater than the
ratio. -/
theorem pow_firstPlace_le {num den : ℕ} (hnum : 0 < num) (hden : 0 < den) {place : ℤ}
    (h : place ≤ firstPlace num den) : den * 10 ^ place.toNat ≤ num * 10 ^ (-place).toNat := by
  unfold firstPlace at h
  split_ifs at h with hle
  · have hq : 0 < num / den := Nat.div_pos hle hden
    have hpow : 10 ^ place.toNat ≤ num / den :=
      (Nat.pow_le_pow_right (by decide) (by omega)).trans (Decimal.numDigits_bounds hq).1
    calc den * 10 ^ place.toNat ≤ den * (num / den) := Nat.mul_le_mul_left _ hpow
      _ ≤ num := Nat.mul_div_le num den
      _ ≤ num * 10 ^ (-place).toNat := Nat.le_mul_of_pos_right _ (Nat.pow_pos (by decide))
  · have hpos := numDigits_pos ((den - 1) / num)
    have hlt := (numDigits_le_iff hpos).mp le_rfl
    rw [Nat.div_lt_iff_lt_mul hnum] at hlt
    have hzero : place.toNat = 0 := by omega
    have hpow : 10 ^ numDigits ((den - 1) / num) ≤ 10 ^ (-place).toNat :=
      Nat.pow_le_pow_right (by decide) (by omega)
    calc den * 10 ^ place.toNat = den := by rw [hzero, pow_zero, mul_one]
      _ ≤ 10 ^ numDigits ((den - 1) / num) * num := by omega
      _ ≤ 10 ^ (-place).toNat * num := Nat.mul_le_mul_right _ hpow
      _ = num * 10 ^ (-place).toNat := Nat.mul_comm _ _

/-- The bounds of the place of the first digit. -/
theorem firstPlace_bounds {num den k : ℕ} (hk : 0 < k) (hnum : num < 10 ^ k) (hden : den < 10 ^ k) :
    -(k : ℤ) ≤ firstPlace num den ∧ firstPlace num den ≤ k := by
  have hq := (numDigits_le_iff hk).mpr ((Nat.div_le_self num den).trans_lt hnum)
  have hr := (numDigits_le_iff hk).mpr
    (((Nat.div_le_self (den - 1) num).trans (Nat.sub_le den 1)).trans_lt hden)
  unfold firstPlace
  split_ifs <;> omega

/-- One of the two neighbours of a ratio. -/
structure Neighbour (num den : ℕ) (d : Digits) : Prop where
  lower : num * 10 ^ (-d.exponent).toNat / (den * 10 ^ d.exponent.toNat) ≤ d.coefficient
  upper : d.coefficient ≤ num * 10 ^ (-d.exponent).toNat / (den * 10 ^ d.exponent.toNat) + 1

theorem neighbours_spec (num den : ℕ) (place : ℤ) :
    (Neighbour num den (neighbours num den place).1 ∧
      (neighbours num den place).1.exponent = place) ∧
    Neighbour num den (neighbours num den place).2 ∧
      (neighbours num den place).2.exponent = place := by
  simp only [neighbours]
  split_ifs <;> exact ⟨⟨⟨by simp, by simp⟩, rfl⟩, ⟨by simp, by simp⟩, rfl⟩

/-- A neighbour at the first place or behind it is not zero. -/
theorem Neighbour.pos {num den : ℕ} {d : Digits} (hnum : 0 < num) (hden : 0 < den)
    (h : Neighbour num den d) (hplace : d.exponent ≤ firstPlace num den) : 0 < d.coefficient :=
  lt_of_lt_of_le (Nat.div_pos (pow_firstPlace_le hnum hden hplace) (by positivity)) h.lower

/-- The search ends with a neighbour at one of the places that it looks at. -/
theorem search_spec (bits num den : ℕ) (first : ℤ) (count rest : ℕ) :
    Neighbour num den (search bits num den first count rest) ∧
      first + 1 - (count + rest : ℕ) ≤ (search bits num den first count rest).exponent ∧
      (search bits num den first count rest).exponent ≤ first + 1 - count := by
  induction rest generalizing count with
  | zero =>
    obtain ⟨⟨h, hplace⟩, -⟩ := neighbours_spec num den (first + 1 - count)
    rw [search, hplace]
    exact ⟨h, le_rfl, le_rfl⟩
  | succ rest ih =>
    obtain ⟨⟨h₁, hplace₁⟩, h₂, hplace₂⟩ := neighbours_spec num den (first + 1 - count)
    simp only [search]
    split_ifs
    · rw [hplace₁]
      exact ⟨h₁, by omega, le_rfl⟩
    · rw [hplace₂]
      exact ⟨h₂, by omega, le_rfl⟩
    · obtain ⟨h, hlow, hup⟩ := ih (count + 1)
      exact ⟨h, by omega, by omega⟩

/-- The search for the digits of a ratio whose terms have at most `k` digits. -/
theorem search_range {bits num den k : ℕ} (hk : 0 < k) (hnum0 : 0 < num) (hnum : num < 10 ^ k)
    (hden0 : 0 < den) (hden : den < 10 ^ k) {d : Digits}
    (hd : search bits num den (firstPlace num den) 1 16 = d) :
    0 < d.coefficient ∧ numDigits d.coefficient ≤ 2 * k + 17 ∧
      -(k + 16 : ℤ) ≤ d.exponent ∧ d.exponent ≤ k := by
  obtain ⟨hlow, hup⟩ := firstPlace_bounds hk hnum hden
  obtain ⟨hneighbour, hplace, hplace'⟩ := search_spec bits num den (firstPlace num den) 1 16
  rw [hd] at hneighbour hplace hplace'
  refine ⟨hneighbour.pos hnum0 hden0 (by omega), ?_, by omega, by omega⟩
  have hone : 1 ≤ 10 ^ (k + (k + 16)) := Nat.pow_pos (by decide)
  refine (numDigits_le_iff (by omega)).mpr ?_
  calc d.coefficient
      ≤ num * 10 ^ (-d.exponent).toNat / (den * 10 ^ d.exponent.toNat) + 1 := hneighbour.upper
    _ ≤ num * 10 ^ (-d.exponent).toNat + 1 := Nat.succ_le_succ (Nat.div_le_self _ _)
    _ ≤ 10 ^ k * 10 ^ (k + 16) + 1 := Nat.succ_le_succ
        (Nat.mul_le_mul hnum.le (Nat.pow_le_pow_right (by decide) (by omega)))
    _ < 10 ^ (k + (k + 16)) * 10 := by rw [← Nat.pow_add]; omega
    _ = 10 ^ (2 * k + 17) := by
        rw [← Nat.pow_succ, show (k + (k + 16)).succ = 2 * k + 17 by omega]

variable {x : Binary64}

theorem exponentField_lt (x : Binary64) : x.exponentField < 2048 := by
  unfold exponentField magnitude
  omega

theorem significand_bounds (h : x.magnitude ≠ 0) : 0 < x.significand ∧ x.significand < 2 ^ 53 := by
  unfold significand exponentField fractionField
  split_ifs <;> omega

/-- The numerator that the digits are searched for. -/
theorem significand_mul_pos (h : x.magnitude ≠ 0) : 0 < x.significand * 2 ^ x.exponent.toNat :=
  Nat.mul_pos (significand_bounds h).1 (by positivity)

/-- **The range of shortest digits.** Numerators and denominators have less than 1100 digits. -/
theorem shortest_range (h : x.magnitude ≠ 0) {k : ℕ} (hk : 1100 ≤ k) :
    0 < x.shortest.coefficient ∧ numDigits x.shortest.coefficient ≤ 2 * k + 17 ∧
      -(k + 16 : ℤ) ≤ x.shortest.exponent ∧ x.shortest.exponent ≤ k := by
  have hlt := (significand_bounds h).2
  have hfield := exponentField_lt x
  have hexp : -1074 ≤ x.exponent ∧ x.exponent ≤ 972 := by
    unfold exponent
    split_ifs <;> omega
  have hpow {n : ℕ} (hn : n < k) : 2 ^ n < 10 ^ k :=
    (Nat.pow_le_pow_left (by decide) n).trans_lt (Nat.pow_lt_pow_right (by decide) hn)
  have hden : 2 ^ (-x.exponent).toNat < 10 ^ k := hpow (by omega)
  have hnum : x.significand * 2 ^ x.exponent.toNat < 10 ^ k := by
    calc x.significand * 2 ^ x.exponent.toNat ≤ 2 ^ 53 * 2 ^ x.exponent.toNat :=
          Nat.mul_le_mul_right _ hlt.le
      _ = 2 ^ (53 + x.exponent.toNat) := (Nat.pow_add ..).symm
      _ < 10 ^ k := hpow (by omega)
  have hden0 : 0 < 2 ^ (-x.exponent).toNat := by positivity
  have hd : search x.magnitude (x.significand * 2 ^ x.exponent.toNat) (2 ^ (-x.exponent).toNat)
      (firstPlace (x.significand * 2 ^ x.exponent.toNat) (2 ^ (-x.exponent).toNat)) 1 16 =
      x.shortest := by rw [shortest]
  exact search_range (by omega) (significand_mul_pos h) hnum hden0 hden hd

end Reckon.Binary64
