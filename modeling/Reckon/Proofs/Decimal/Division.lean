import Mathlib.Tactic.LinearCombination
import Reckon.Decimal.Division
import Reckon.Proofs.Decimal.Rounding

/-!
# Division is an operation on values

`significant` rounds a number to the significant digits that a quotient keeps. A quotient is first
formed with more digits than that as an integer division, and what the division leaves goes into
the rounding as a flag. Both together round the exact quotient once.

Results:
* `value_div`: the quotient of two decimals is the quotient of their values, rounded.
* `value_powInt`: the same for powers with integer exponents.
-/

namespace Reckon.Decimal

/-- A number rounded to the significant digits that a quotient keeps, a half to the even digit. -/
def significant (q : ℚ) : ℚ :=
  RoundingMode.halfEven.round (q / 10 ^ (Int.log 10 |q| + 1 - precision)) *
    10 ^ (Int.log 10 |q| + 1 - precision)

theorem significant_neg (q : ℚ) : significant (-q) = -significant q := by
  unfold significant
  rw [abs_neg, neg_div, RoundingMode.round_neg, show RoundingMode.halfEven.opposite = .halfEven from rfl]
  push_cast
  ring

/-! ## Trailing zeros -/

theorem pow_trailingZeros_dvd (n : ℕ) : 10 ^ trailingZeros n ∣ n := by
  fun_induction trailingZeros n with
  | case1 n h ih =>
    have hn : n / 10 * 10 = n := Nat.div_mul_cancel (Nat.dvd_of_mod_eq_zero h.2)
    have hdvd := Nat.mul_dvd_mul ih (Nat.dvd_refl 10)
    rwa [hn] at hdvd
  | case2 => exact Nat.one_dvd _

/-- Removing trailing zeros keeps the value. -/
theorem value_stripZeros (d : Decimal) (least : Scale) : (d.stripZeros least).value = d.value := by
  unfold stripZeros
  generalize hc : min (trailingZeros d.unscaled.natAbs) (d.scale.toInt - least.toInt).toNat = count
  have hdvd : (10 : ℤ) ^ count ∣ d.unscaled := by
    refine Int.dvd_natAbs.mp ?_
    have h := (Nat.pow_dvd_pow 10 (hc ▸ min_le_left _ _)).trans (pow_trailingZeros_dvd d.unscaled.natAbs)
    exact_mod_cast h
  simp only
  split
  · rename_i s hs
    obtain ⟨k, hk⟩ := hdvd
    simp only [value]
    rw [hk, Int.mul_tdiv_cancel_left _ (by positivity), Scale.toInt_of_ofInt? hs]
    push_cast
    rw [neg_sub, sub_eq_add_neg, zpow_add₀ (by norm_num), zpow_natCast]
    ring
  · rfl

/-! ## Rounding once -/

/-- How twice the dropped part compares with the unit. What lies below the digits decides only
where the dropped digits are just one half. -/
theorem compare_dropped {Q U : ℕ} {x : ℚ} (hU : 2 ∣ U) (hU0 : 0 < U) (hx : 0 ≤ x) (hQ : ⌊x⌋₊ = Q) :
    compare (2 * (x / U - ⌊x / U⌋₊)) 1 =
      match compare (2 * (Q % U)) U with
      | .eq => if x = Q then .eq else .gt
      | order => order := by
  have hU' : (0 : ℚ) < U := by exact_mod_cast hU0
  have hle : (Q : ℚ) ≤ x := by rw [← hQ]; exact Nat.floor_le hx
  have hlt : x < Q + 1 := by rw [← hQ]; exact Nat.lt_floor_add_one x
  have hsplit : ((U * (Q / U) + Q % U : ℕ) : ℚ) = Q := by rw [Nat.div_add_mod]
  push_cast at hsplit
  have hscaled : 2 * (x / U - ⌊x / U⌋₊) * U = 2 * (Q % U : ℕ) + 2 * (x - Q) := by
    rw [Nat.floor_div_natCast, hQ, mul_assoc, sub_mul, div_mul_cancel₀ _ hU'.ne', ← hsplit]
    ring
  rw [← cmp_eq_compare, ← cmp_mul_pos_right hU', one_mul, hscaled, cmp_eq_compare]
  rcases lt_trichotomy (2 * (Q % U)) U with h | h | h
  · rw [compare_lt_iff_lt.mpr h, compare_lt_iff_lt]
    -- both sides are even, so there is room for what lies below
    have h2 : 2 * (Q % U) + 2 ≤ U := by omega
    have h2' : (2 * (Q % U : ℕ) + 2 : ℚ) ≤ U := by exact_mod_cast h2
    linarith
  · have h' : (2 * (Q % U : ℕ) : ℚ) = U := by exact_mod_cast h
    rw [compare_eq_iff_eq.mpr h]
    simp only
    split_ifs with he
    · rw [compare_eq_iff_eq, he, sub_self, mul_zero, add_zero, h']
    · have hpos : 0 < x - Q := by
        refine sub_pos.mpr (lt_of_le_of_ne hle (Ne.symm he))
      rw [compare_gt_iff_gt]
      linarith
  · have h' : (U : ℚ) < 2 * (Q % U : ℕ) := by exact_mod_cast h
    rw [compare_gt_iff_gt.mpr h, compare_gt_iff_gt]
    linarith

/-- What half-even rounding does to a number that is cut off to an integer. -/
theorem magnitude_halfEven {Q U : ℕ} {x : ℚ} (hU : 2 ∣ U) (hU0 : 0 < U) (hx : 0 ≤ x)
    (hQ : ⌊x⌋₊ = Q) : RoundingMode.halfEven.magnitude false (x / U) =
      match compare (2 * (Q % U)) U with
      | .gt => Q / U + 1
      | .eq => if x ≠ Q ∨ Q / U % 2 = 1 then Q / U + 1 else Q / U
      | .lt => Q / U := by
  have hfloor : ⌊x / U⌋₊ = Q / U := by rw [Nat.floor_div_natCast, hQ]
  have hcmp := compare_dropped hU hU0 hx hQ
  -- where nothing is left, it is less than one half
  have hrest : compare (2 * (x / U - ⌊x / U⌋₊)) 1 ≠ .lt → x / U - ⌊x / U⌋₊ ≠ 0 := by
    intro h h0
    refine h ?_
    rw [h0, mul_zero, compare_lt_iff_lt]
    norm_num
  unfold RoundingMode.magnitude RoundingMode.raises
  rw [hcmp] at hrest
  rw [hcmp, hfloor]
  rw [hfloor] at hrest
  cases hc : compare (2 * (Q % U)) U with
  | lt => simp
  | eq =>
    rw [hc] at hrest
    by_cases hx : x = Q
    · simp only [hx, if_true] at hrest ⊢
      simp [hrest]
    · simp only [hx, if_false] at hrest
      simp [hrest, hx]
  | gt =>
    rw [hc] at hrest
    simp [hrest]

/-- The digits after rounding, a carry into one digit more being taken out, and the scale that goes
with them. -/
theorem rounded_ok {rounded : ℕ} (hrounded : rounded ≤ 10 ^ precision) {s count : ℤ} {exact : Bool}
    {r : Rounded} (h : ((Scale.ofInt? (s - count)).bind fun scale =>
      if precision < numDigits rounded then
        (Scale.ofInt? (scale.toInt - 1)).map fun scale => ⟨rounded / 10, scale, exact⟩
      else some ⟨rounded, scale, exact⟩) = some r) :
    (r.magnitude : ℚ) * 10 ^ (-r.scale.toInt) = rounded * 10 ^ (count - s) := by
  obtain ⟨s₁, hs₁, h⟩ := Option.bind_eq_some_iff.mp h
  have hs₁ := Scale.toInt_of_ofInt? hs₁
  split_ifs at h with hcarry
  · -- a digit more is a power of ten, so nothing is lost with its last digit
    obtain ⟨s₂, hs₂, rfl⟩ := Option.map_eq_some_iff.mp h
    have hs₂ := Scale.toInt_of_ofInt? hs₂
    have hten : rounded = rounded / 10 * 10 := by
      have hlt : ¬ rounded < 10 ^ precision := by
        rw [← numDigits_le_iff (by decide)]
        exact not_le.mpr hcarry
      rw [le_antisymm hrounded (not_lt.mp hlt)]
      decide
    have hexp : -s₂.toInt = count - s + 1 := by omega
    have hcast : (rounded : ℚ) = (rounded / 10 : ℕ) * 10 := by exact_mod_cast hten
    rw [hcast, hexp, zpow_add_one₀ (by norm_num)]
    ring
  · cases h
    simp only
    rw [hs₁, neg_sub]

/-- The integer part of a number and a flag for what lies below it are all that rounding to
`precision` digits needs. -/
theorem roundSignificant_eq_bind {x : ℚ} (hx : 0 ≤ x) (hD : precision < numDigits ⌊x⌋₊)
    {sticky : Bool} (hs : sticky = true ↔ x ≠ ⌊x⌋₊) (scale : Scale) :
    ∃ rounded, rounded =
        RoundingMode.halfEven.magnitude false (x / (10 ^ (numDigits ⌊x⌋₊ - precision) : ℕ)) ∧
      rounded ≤ 10 ^ precision ∧
      roundSignificant ⌊x⌋₊ scale sticky =
        (Scale.ofInt? (scale.toInt - (numDigits ⌊x⌋₊ - precision : ℕ))).bind fun scale =>
          if precision < numDigits rounded then
            (Scale.ofInt? (scale.toInt - 1)).map fun scale => (⟨rounded / 10, scale,
              (⌊x⌋₊ % 10 ^ (numDigits ⌊x⌋₊ - precision) = 0 && !sticky : Bool)⟩ : Rounded)
          else some ⟨rounded, scale,
            (⌊x⌋₊ % 10 ^ (numDigits ⌊x⌋₊ - precision) = 0 && !sticky : Bool)⟩ := by
  generalize hQ : ⌊x⌋₊ = Q at *
  generalize hcount : numDigits Q - precision = count at *
  have hunit : 0 < 10 ^ count := by positivity
  have heven : 2 ∣ 10 ^ count := by
    rw [show count = (count - 1) + 1 by omega, Nat.pow_succ]
    exact Nat.dvd_mul_left_of_dvd (by decide) _
  have hkept : Q / 10 ^ count < 10 ^ precision := by
    rw [Nat.div_lt_iff_lt_mul hunit, ← Nat.pow_add, ← hcount, Nat.add_sub_cancel' hD.le]
    exact (numDigits_le_iff (numDigits_pos Q)).mp le_rfl
  have hrounded := magnitude_halfEven heven hunit hx hQ
  unfold roundSignificant
  rw [if_neg (by omega)]
  simp only [hcount]
  refine ⟨_, rfl, ?_⟩
  cases hc : compare (2 * (Q % 10 ^ count)) (10 ^ count) with
  | lt =>
    simp only [hc, Bool.false_eq_true, if_false] at hrounded ⊢
    rw [hrounded]
    exact ⟨hkept.le, rfl⟩
  | eq =>
    simp only [hc, Bool.or_eq_true, hs, decide_eq_true_iff] at hrounded ⊢
    rw [hrounded]
    refine ⟨?_, rfl⟩
    split_ifs
    · exact hkept
    · exact hkept.le
  | gt =>
    simp only [hc, if_true] at hrounded ⊢
    rw [hrounded]
    exact ⟨hkept, rfl⟩

/-- **Rounding once**: a number, given by its integer part and by a flag that says whether there is
more to it, is rounded to `precision` digits. -/
theorem roundSignificant_ok {x : ℚ} (hx : 0 ≤ x) (hD : precision < numDigits ⌊x⌋₊) {sticky : Bool}
    (hs : sticky = true ↔ x ≠ ⌊x⌋₊) {scale : Scale} {r : Rounded}
    (h : roundSignificant ⌊x⌋₊ scale sticky = some r) :
    (r.magnitude : ℚ) * 10 ^ (-r.scale.toInt) =
      RoundingMode.halfEven.magnitude false (x / (10 ^ (numDigits ⌊x⌋₊ - precision) : ℕ)) *
        10 ^ (((numDigits ⌊x⌋₊ - precision : ℕ) : ℤ) - scale.toInt) := by
  obtain ⟨rounded, hrounded, hle, heq⟩ := roundSignificant_eq_bind hx hD hs scale
  rw [← hrounded]
  exact rounded_ok hle (heq ▸ h)

/-! ## The quotient -/

/-- The dividend gets zeros enough for the quotient to have more digits than are kept. -/
theorem precision_lt_numDigits {m n : ℕ} (hm : 0 < m) (hn : 0 < n) :
    precision < numDigits (m * 10 ^ quotientShift m n / n) := by
  have hlow := (numDigits_bounds hm).1
  have hup := (numDigits_bounds hn).2
  have hpos := numDigits_pos m
  refine not_le.mp fun hle => ?_
  have hlt := (numDigits_le_iff (by decide)).mp hle
  rw [Nat.div_lt_iff_lt_mul hn] at hlt
  have h1 : 10 ^ (numDigits m - 1) * 10 ^ quotientShift m n ≤ m * 10 ^ quotientShift m n :=
    Nat.mul_le_mul_right _ hlow
  have h2 : 10 ^ precision * n ≤ 10 ^ precision * 10 ^ numDigits n := Nat.mul_le_mul_left _ hup.le
  have h3 : 10 ^ (precision + numDigits n) ≤ 10 ^ (numDigits m - 1 + quotientShift m n) := by
    refine Nat.pow_le_pow_right (by decide) ?_
    unfold quotientShift
    omega
  rw [Nat.pow_add, Nat.pow_add] at h3
  omega

theorem significant_of_nonneg {q : ℚ} (h : 0 ≤ q) : significant q =
    RoundingMode.halfEven.magnitude false (q / 10 ^ (Int.log 10 q + 1 - precision)) *
      10 ^ (Int.log 10 q + 1 - precision) := by
  have hq : 0 ≤ q / 10 ^ (Int.log 10 q + 1 - precision) := div_nonneg h (ten_zpow_pos _).le
  unfold significant RoundingMode.round signed
  rw [abs_of_nonneg h, abs_of_nonneg hq, decide_eq_false (not_lt.mpr hq)]
  simp

/-- What an integer division leaves is what the quotient has below the unit. -/
theorem sticky_iff {m n : ℕ} (hn : 0 < n) :
    decide (m % n ≠ 0) = true ↔ (m : ℚ) / n ≠ ⌊(m : ℚ) / n⌋₊ := by
  have hn' : (n : ℚ) ≠ 0 := by exact_mod_cast hn.ne'
  rw [decide_eq_true_iff, ← sub_ne_zero (a := (m : ℚ) / n), RoundingMode.sub_floor_div _ hn, Ne, Ne,
    div_eq_zero_iff, Nat.cast_eq_zero, or_iff_left hn']

theorem one_le_of_numDigits {x : ℚ} (hD : precision < numDigits ⌊x⌋₊) : 1 ≤ x := by
  refine Nat.floor_pos.mp (Nat.pos_of_ne_zero fun h0 => ?_)
  rw [h0] at hD
  exact absurd hD (by decide)

/-- The digits that a number at a scale keeps, where its integer part has more of them. -/
theorem significant_mul_zpow {x : ℚ} (hx : 1 ≤ x) (hD : precision < numDigits ⌊x⌋₊) (s : ℤ) :
    significant (x * 10 ^ (-s)) =
      RoundingMode.halfEven.magnitude false (x / (10 ^ (numDigits ⌊x⌋₊ - precision) : ℕ)) *
        10 ^ (((numDigits ⌊x⌋₊ - precision : ℕ) : ℤ) - s) := by
  have hnonneg : 0 ≤ x * 10 ^ (-s) := mul_nonneg (by linarith) (ten_zpow_pos _).le
  have hexp : (numDigits ⌊x⌋₊ : ℤ) - 1 - s + 1 - precision =
      ((numDigits ⌊x⌋₊ - precision : ℕ) : ℤ) - s := by omega
  rw [significant_of_nonneg hnonneg, log_mul_zpow hx, hexp]
  congr 3
  rw [sub_eq_add_neg, zpow_add₀ (by norm_num), zpow_natCast, mul_div_mul_right _ _ (ten_zpow_ne_zero _)]
  push_cast
  rfl

/-- A quotient with zeros appended to the dividend, at a scale that takes them out again. -/
theorem appended_zeros (m n k : ℕ) (s : ℤ) :
    (m : ℚ) / n * 10 ^ (k - s) = (m * 10 ^ k : ℕ) / n * 10 ^ (-s) := by
  rw [sub_eq_add_neg, zpow_add₀ (by norm_num), zpow_natCast]
  push_cast
  ring

/-- The magnitude of a quotient, with the zeros that were appended taken out again. -/
theorem significant_quotient {m n k : ℕ} (hn : 0 < n)
    (hD : precision < numDigits (m * 10 ^ k / n)) {s : Scale} {r : Rounded}
    (h : roundSignificant (m * 10 ^ k / n) s (m * 10 ^ k % n ≠ 0) = some r) :
    (r.magnitude : ℚ) * 10 ^ (-r.scale.toInt) = significant ((m : ℚ) / n * 10 ^ (k - s.toInt)) := by
  generalize hx : ((m * 10 ^ k : ℕ) : ℚ) / n = x
  have hfloor : ⌊x⌋₊ = m * 10 ^ k / n := by rw [← hx, Nat.floor_div_eq_div]
  have hsticky := sticky_iff (m := m * 10 ^ k) hn
  rw [hx] at hsticky
  rw [← hfloor] at h hD
  have hx1 := one_le_of_numDigits hD
  rw [roundSignificant_ok (by linarith) hD hsticky h, appended_zeros, hx,
    significant_mul_zpow hx1 hD]

theorem significant_zero : significant 0 = 0 := by
  have h := RoundingMode.round_intCast .halfEven 0
  rw [Int.cast_zero] at h
  rw [significant, zero_div, h, Int.cast_zero, zero_mul]

/-- The sign of a quotient is the product of the signs. -/
theorem value_div_value {a b : Decimal} (hb : b.unscaled ≠ 0) : a.value / b.value =
    (a.unscaled.sign * b.unscaled.sign : ℤ) *
      ((a.unscaled.natAbs : ℚ) / b.unscaled.natAbs * 10 ^ (b.scale.toInt - a.scale.toInt)) := by
  have split (d : Decimal) :
      d.value = d.unscaled.sign * d.unscaled.natAbs * 10 ^ (-d.scale.toInt) := by
    rw [value, ← Int.cast_natCast, ← Int.cast_mul, Int.sign_mul_natAbs]
  have hsign : (b.unscaled.sign : ℚ) * b.unscaled.sign = 1 := by
    rcases lt_or_gt_of_ne hb with h | h
    · rw [Int.sign_eq_neg_one_of_neg h]
      norm_num
    · rw [Int.sign_eq_one_of_pos h]
      norm_num
  have hne : (b.unscaled.sign : ℚ) ≠ 0 := left_ne_zero_of_mul_eq_one hsign
  have hn : (b.unscaled.natAbs : ℚ) ≠ 0 := by
    rw [Ne, Nat.cast_eq_zero]
    exact Int.natAbs_ne_zero.mpr hb
  have h10 := ten_zpow_ne_zero b.scale.toInt
  rw [split a, split b, sub_eq_add_neg, zpow_add₀ (by norm_num), zpow_neg 10 b.scale.toInt]
  field_simp
  push_cast
  linear_combination (-(a.unscaled.sign : ℚ) * a.unscaled.natAbs) * hsign

/-- The sign of a number is the sign of the number that it is rounded to. -/
theorem significant_sign_mul (a b : ℤ) (q : ℚ) :
    significant ((a.sign * b.sign : ℤ) * q) = (a.sign * b.sign : ℤ) * significant q := by
  have key (c : ℤ) (q : ℚ) : significant ((c.sign : ℤ) * q) = (c.sign : ℤ) * significant q := by
    rcases lt_trichotomy c 0 with h | h | h
    · simp [Int.sign_eq_neg_one_of_neg h, significant_neg]
    · simp [h, significant_zero]
    · simp [Int.sign_eq_one_of_pos h]
  rw [← Int.sign_mul]
  exact key _ q

/-- **How a quotient comes about**: it is zero at the preferred scale, or its magnitude is formed at
a scale with more digits, rounded, and rid of trailing zeros if it is exact. -/
theorem div_ok {a b c : Decimal} (h : a.div b = .ok c) : b.unscaled ≠ 0 ∧
    ∃ preferred : Scale, preferred.toInt = a.scale.toInt - b.scale.toInt ∧
      ((a.unscaled = 0 ∧ c = ⟨0, preferred⟩) ∨ (a.unscaled ≠ 0 ∧ ∃ (s : Scale) (r : Rounded),
        s.toInt = preferred.toInt + quotientShift a.unscaled.natAbs b.unscaled.natAbs ∧
        roundSignificant
          (a.unscaled.natAbs * 10 ^ quotientShift a.unscaled.natAbs b.unscaled.natAbs /
            b.unscaled.natAbs) s
          (a.unscaled.natAbs * 10 ^ quotientShift a.unscaled.natAbs b.unscaled.natAbs %
            b.unscaled.natAbs ≠ 0) = some r ∧
        c = if r.exact then
            stripZeros ⟨a.unscaled.sign * b.unscaled.sign * r.magnitude, r.scale⟩ preferred
          else ⟨a.unscaled.sign * b.unscaled.sign * r.magnitude, r.scale⟩)) := by
  unfold div at h
  by_cases hb : b.unscaled = 0
  · rw [if_pos hb] at h
    cases h
  rw [if_neg hb] at h
  refine ⟨hb, ?_⟩
  split at h
  · cases h
  · rename_i p hp
    refine ⟨p, Scale.toInt_of_ofInt? hp, ?_⟩
    by_cases ha : a.unscaled = 0
    · rw [if_pos ha] at h
      cases h
      exact .inl ⟨ha, rfl⟩
    rw [if_neg ha] at h
    split at h
    · rename_i q hquot
      cases h
      obtain ⟨s, hs, hquot⟩ := Option.bind_eq_some_iff.mp hquot
      obtain ⟨r, hr, hresult⟩ := Option.map_eq_some_iff.mp hquot
      exact .inr ⟨ha, s, r, Scale.toInt_of_ofInt? hs, hr, hresult.symm⟩
    · cases h

/-- **A quotient is the quotient of the values, rounded** to the digits that are kept. -/
theorem value_div {a b c : Decimal} (h : a.div b = .ok c) :
    b.value ≠ 0 ∧ c.value = significant (a.value / b.value) := by
  obtain ⟨hb, p, hp, ⟨ha, rfl⟩ | ⟨ha, s, r, hs, hr, rfl⟩⟩ := div_ok h
  · refine ⟨fun h0 => hb (value_eq_zero.mp h0), ?_⟩
    rw [value_eq_zero.mpr ha, zero_div, significant_zero]
    exact value_eq_zero.mpr rfl
  · refine ⟨fun h0 => hb (value_eq_zero.mp h0), ?_⟩
    have hn : 0 < b.unscaled.natAbs := Int.natAbs_pos.mpr hb
    have hD := precision_lt_numDigits (Int.natAbs_pos.mpr ha) hn
    have hsig := significant_quotient hn hD hr
    have hexp : ((quotientShift a.unscaled.natAbs b.unscaled.natAbs : ℕ) : ℤ) - s.toInt =
        b.scale.toInt - a.scale.toInt := by omega
    rw [hexp] at hsig
    have hvalue : (⟨a.unscaled.sign * b.unscaled.sign * r.magnitude, r.scale⟩ : Decimal).value =
        (a.unscaled.sign * b.unscaled.sign : ℤ) * (r.magnitude * 10 ^ (-r.scale.toInt)) := by
      rw [value]
      push_cast
      ring
    rw [value_div_value hb, significant_sign_mul, ← hsig, ← hvalue]
    split_ifs
    · exact value_stripZeros _ _
    · rfl

/-- A power with an integer exponent. -/
theorem value_powInt {a c : Decimal} {n : ℤ} (h : a.powInt n = .ok c) :
    c.value = if n < 0 then significant (1 / a.value ^ n.natAbs) else a.value ^ n.natAbs := by
  unfold powInt at h
  split_ifs at h with hn hneg
  · obtain ⟨p, hp, h⟩ := bind_ok h
    rw [if_pos hneg, (value_div h).2, value_one, (value_pow hp).1]
  · obtain ⟨p, hp, h⟩ := bind_ok h
    cases h
    rw [if_neg hneg, (value_pow hp).1]

end Reckon.Decimal
