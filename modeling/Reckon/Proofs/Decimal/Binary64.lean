import Reckon.Proofs.Binary64.ReadBack
import Reckon.Decimal.Binary64

/-!
# Binary64 numbers as decimals and back

The decimal of a binary64 number has the value of the shortest digits that read back as the number.
These are seventeen digits at most, so the way back never has to cut them, and its one rounding
gives the number again, from the subnormal numbers, whose scales exceed 300, to the largest ones,
whose zeros are all written out.

Results:
* `RoundsOnce.toBinary64_eq`: a way back with a single rounding.
* `cuts_eq_zero`: a moderate number of digits is not cut.
* `ofBinary64?_eq_some`: the parts of the decimal of a number other than zero.
* `ofBinary64_readsBack`: every finite number is the nearest to its decimal.
-/

namespace Reckon

namespace Binary64

/-- A number is its sign and its magnitude. -/
theorem ofMagnitude_negative (x : Binary64) : ofMagnitude x.negative x.magnitude = x := by
  obtain ⟨bits⟩ := x
  have hlt := bits.toNat_lt
  have hbits : (if 2 ^ 63 ≤ bits.toNat then 2 ^ 63 + bits.toNat % 2 ^ 63 else bits.toNat % 2 ^ 63) =
      bits.toNat := by
    split_ifs <;> omega
  simp only [ofMagnitude, negative, magnitude, decide_eq_true_eq, hbits, UInt64.ofNat_toNat]

end Binary64

namespace Decimal

open Binary64

/-- The way back to binary64 rounds only once: no digits are cut off, no power of ten is formed in
binary64, and the scale is not out of range. -/
def RoundsOnce (d : Decimal) : Prop :=
  d.unscaled = 0 ∨ d.scale.toInt = 0 ∨
    cuts d.unscaled.natAbs = 0 ∧ 0 < d.scale.toInt ∧ d.scale.toInt ≤ 2147483647 ∧
      d.scale.toInt ≤ numDigits d.unscaled.natAbs + farBelow

instance (d : Decimal) : Decidable d.RoundsOnce :=
  inferInstanceAs (Decidable (_ ∨ _))

/-- **What is rounded is the value itself.** -/
theorem RoundsOnce.toBinary64_eq {d : Decimal} (h : d.RoundsOnce) :
    d.toBinary64 = roundRatio (d.unscaled < 0) d.unscaled.natAbs (10 ^ d.scale.toInt.toNat) := by
  unfold toBinary64
  by_cases h0 : d.unscaled.natAbs = 0
  · have hneg : ¬d.unscaled < 0 := by omega
    rw [if_pos h0, roundRatio, if_pos h0, decide_eq_false hneg]
  · rw [if_neg h0]
    by_cases hscale : d.scale.toInt = 0
    · rw [if_pos hscale, hscale, Int.toNat_zero, pow_zero]
    · obtain ⟨hcuts, hpos, hle, hfar⟩ := (h.resolve_left (by omega)).resolve_left hscale
      have hmin : min d.scale.toInt.toNat (numDigits d.unscaled.natAbs + farBelow) =
          d.scale.toInt.toNat := by omega
      have hrange : ¬(d.scale.toInt ≤ -2147483648 ∨ 2147483647 < d.scale.toInt) := by omega
      simp only [hcuts, mul_zero, pow_zero, Nat.div_one, Nat.cast_zero, sub_zero, hmin,
        if_neg hscale, if_neg hrange, if_neg hpos.not_ge]

/-- The estimate from the length is far from the limit up to 63 bits. -/
theorem cuts_eq_zero {n : ℕ} (h : numDigits n ≤ 17) : cuts n = 0 := by
  have hestimate : ∀ k < 64, ((ofNat k).mul log10Two).floorMagnitude ≤ 25 := by decide +kernel
  have hlog : n.log2 < 62 := by
    rcases Nat.eq_zero_or_pos n with rfl | hpos
    · decide
    · rw [Nat.log2_lt hpos.ne']
      exact ((numDigits_le_iff (by decide)).mp h).trans (by decide)
  have hle := hestimate (n.log2 + 1 + 1) (by omega)
  rw [cuts, Nat.sub_eq_zero_of_le hle, Nat.zero_div]

/-! ## Digits with a sign -/

theorem natAbs_signed (negative : Bool) (n : ℕ) : (signed negative n).natAbs = n := by
  unfold signed
  split_ifs <;> omega

theorem signed_lt_zero {n : ℕ} (h : 0 < n) (negative : Bool) :
    decide (signed negative n < 0) = negative := by
  unfold signed
  cases negative
  · exact decide_eq_false (by simp only [Bool.false_eq_true, if_false]; omega)
  · exact decide_eq_true (by simp only [if_true]; omega)

section WrittenOut

variable {digits : Digits} {scale : Scale}

/-- Where there is a fraction, no zeros are written out. -/
theorem num_of_scale_pos (hscale : scale.toInt = -min digits.exponent 0) (h : 0 < scale.toInt) :
    digits.num = digits.coefficient := by
  rw [Digits.num, show digits.exponent.toNat = 0 by omega, pow_zero, mul_one]

theorem den_of_scale (hscale : scale.toInt = -min digits.exponent 0) :
    digits.den = 10 ^ scale.toInt.toNat := by
  rw [Digits.den]
  congr 1
  omega

/-- The value is that of the digits, with the sign. -/
theorem value_signed_num (hscale : scale.toInt = -min digits.exponent 0) (negative : Bool) :
    (⟨signed negative digits.num, scale⟩ : Decimal).value =
      if negative then -digits.value else digits.value := by
  have hvalue : digits.value = digits.num * 10 ^ (-scale.toInt) := by
    rw [← digits.num_div_den, den_of_scale hscale, zpow_neg, ← ten_zpow_toNat (by omega),
      div_eq_mul_inv, Nat.cast_pow, Nat.cast_ofNat]
  rw [hvalue, value, signed]
  split_ifs
  · rw [Int.cast_neg, Int.cast_natCast, neg_mul]
  · rw [Int.cast_natCast]

/-- Short digits are rounded once. -/
theorem roundsOnce_signed_num (hscale : scale.toInt = -min digits.exponent 0)
    (hdigits : numDigits digits.coefficient ≤ 17) (hlow : -400 ≤ digits.exponent)
    (negative : Bool) : RoundsOnce ⟨signed negative digits.num, scale⟩ := by
  rcases eq_or_ne scale.toInt 0 with h | h
  · exact .inr (.inl h)
  · have hpos : 0 < scale.toInt := by omega
    have hle : scale.toInt ≤ 400 := by omega
    unfold RoundsOnce farBelow
    rw [natAbs_signed, num_of_scale_pos hscale hpos, cuts_eq_zero hdigits]
    exact .inr (.inr ⟨rfl, hpos, hle.trans (by decide), hle.trans (by omega)⟩)

/-- Digits that read back give the number back. -/
theorem toBinary64_signed_num (hscale : scale.toInt = -min digits.exponent 0)
    (hpos : 0 < digits.coefficient) {negative : Bool}
    (honce : RoundsOnce ⟨signed negative digits.num, scale⟩) {bits : ℕ} (hbits : bits < infinityBits)
    (hreads : Nearest digits.value bits) :
    toBinary64 ⟨signed negative digits.num, scale⟩ = ofMagnitude negative bits := by
  have hnum : 0 < digits.num := Nat.mul_pos hpos (by positivity)
  have hround : roundBits digits.num digits.den = bits :=
    of_decide_eq_true ((readsBack_iff hpos hbits).mpr hreads)
  rw [honce.toBinary64_eq, natAbs_signed, signed_lt_zero hnum, ← den_of_scale hscale, roundRatio,
    if_neg hnum.ne', hround]

end WrittenOut

/-! ## The decimal of a binary64 number -/

variable {x : Binary64}

theorem ofBinary64?_of_zero (h : x.magnitude = 0) : ofBinary64? x = some zero := by
  have hx : x.isFinite = true := decide_eq_true (by rw [h]; decide)
  rw [ofBinary64?, hx, Bool.not_true, if_neg Bool.false_ne_true, if_pos h]

/-- **The decimal of a number other than zero.** The zeros in front of the point are written out, and
the scale is as large as there are digits behind it. -/
theorem ofBinary64?_eq_some (hx : x.isFinite = true) (h0 : x.magnitude ≠ 0) :
    ∃ scale : Scale, scale.toInt = -min x.shortest.stripped.exponent 0 ∧
      ofBinary64? x = some ⟨signed x.negative x.shortest.stripped.num, scale⟩ := by
  have hlow := (shortest_stripped_range (of_decide_eq_true hx) h0).2
  have hfits : Scale.Fits (-min x.shortest.stripped.exponent 0) := by
    unfold Scale.Fits
    omega
  obtain ⟨scale, hscale⟩ := Scale.exists_ofInt? hfits
  refine ⟨scale, Scale.toInt_of_ofInt? hscale, ?_⟩
  rw [ofBinary64?, hx, Bool.not_true, if_neg Bool.false_ne_true, if_neg h0]
  exact congrArg (Option.map _) hscale

/-- **Every finite number is the nearest to its decimal.** The decimal has the value of the shortest
digits that read back, no negative scale and no zeros at the end of a fraction. The way back is a
single rounding and gives the number again, or the positive zero for either zero. -/
theorem ofBinary64_readsBack (hx : x.isFinite = true) :
    ∃ (d : Decimal) (digits : Digits), ofBinary64? x = some d ∧ IsShortest x.magnitude digits ∧
      d.value = (if x.negative then -digits.value else digits.value) ∧
      0 ≤ d.scale.toInt ∧ (0 < d.scale.toInt → d.unscaled % 10 ≠ 0) ∧
      d.RoundsOnce ∧ d.toBinary64 = if x.magnitude = 0 then Binary64.zero false else x := by
  by_cases h0 : x.magnitude = 0
  · rw [if_pos h0, h0]
    refine ⟨zero, ⟨0, 0⟩, ofBinary64?_of_zero h0, isShortest_zero, ?_, le_rfl,
      fun h => absurd h (lt_irrefl _), .inl rfl, rfl⟩
    rw [zero, value_ofInt, Digits.value, Nat.cast_zero, zero_mul, neg_zero, ite_self, Int.cast_zero]
  · have hbits : x.magnitude < infinityBits := of_decide_eq_true hx
    have hshortest := isShortest_shortest hbits h0
    have hmod := Digits.stripped_mod (shortest_range h0 le_rfl).1
    obtain ⟨hdigits, hlow⟩ := shortest_stripped_range hbits h0
    obtain ⟨scale, hscale, hd⟩ := ofBinary64?_eq_some hx h0
    have honce := roundsOnce_signed_num hscale hdigits hlow x.negative
    refine ⟨_, _, hd, hshortest, value_signed_num hscale x.negative, ?_, fun h => ?_, honce, ?_⟩
    · simp only [hscale]
      omega
    · have hnatAbs := natAbs_signed x.negative x.shortest.stripped.num
      rw [num_of_scale_pos hscale h] at hnatAbs
      simp only [num_of_scale_pos hscale h]
      omega
    · rw [if_neg h0, toBinary64_signed_num hscale (by omega) honce hbits hshortest.readsBack,
        ofMagnitude_negative]

/-- The least subnormal number has one digit, at the place -324. -/
theorem ofBinary64_readsBack_least : ofBinary64? ⟨1⟩ = some ⟨5, 324, by decide, by decide⟩ ∧
    toBinary64 ⟨5, 324, by decide, by decide⟩ = ⟨1⟩ := by
  have hd : ofBinary64? ⟨1⟩ = some ⟨5, 324, by decide, by decide⟩ := by decide +kernel
  obtain ⟨d, -, hd', -, -, -, -, -, hback⟩ := ofBinary64_readsBack (x := ⟨1⟩) (by decide)
  obtain rfl := Option.some.inj (hd'.symm.trans hd)
  exact ⟨hd, hback⟩

end Decimal

end Reckon
