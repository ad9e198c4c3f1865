import Mathlib.Data.Sign.Basic
import Reckon.Proofs.Decimal.Division

/-!
# Quotients are correctly rounded

`Short` numbers are those of at most `precision` significant digits. They stand on a grid: between
two neighbours with `precision` digits each there is no other one. So what half-even rounding makes
of the digits of a quotient is the nearest of all short numbers, also where it carries into a digit
more; and a quotient is short just if nothing is dropped from its digits.

Results:
* `Short.le_or_le`: the grid of the short numbers.
* `roundSignificant_digits`: the digits that rounding leaves.
* `scale_stripZeros`, `isLeast_scale`: how far trailing zeros are removed.
* `exists_quotient`: the digits of a quotient and what rounding makes of them.
* `div_correct`: what a quotient is, and at which scale.
-/

namespace Reckon.Decimal

/-! ## Short numbers -/

/-- A number of at most `precision` significant digits. -/
def Short (q : ℚ) : Prop := ∃ m e : ℤ, |m| < 10 ^ precision ∧ q = m * 10 ^ e

theorem short_zero : Short 0 := ⟨0, 0, by decide, by simp⟩

theorem short_natCast_mul {n : ℕ} (h : n < 10 ^ precision) (e : ℤ) : Short (n * 10 ^ e) := by
  refine ⟨n, e, ?_, by push_cast; rfl⟩
  rw [Nat.abs_cast]
  exact_mod_cast h

theorem Short.neg {q : ℚ} (h : Short q) : Short (-q) := by
  obtain ⟨m, e, hm, rfl⟩ := h
  exact ⟨-m, e, by rwa [abs_neg], by push_cast; ring⟩

theorem short_sign_mul {sign : ℤ} (h : |sign| = 1) {q : ℚ} : Short (sign * q) ↔ Short q := by
  rcases (abs_eq zero_le_one).mp h with rfl | rfl
  · rw [Int.cast_one, one_mul]
  · rw [Int.cast_neg, Int.cast_one, neg_one_mul]
    exact ⟨fun h => neg_neg q ▸ h.neg, Short.neg⟩

/-- **The grid of the short numbers**: there is none between two neighbours that have `precision`
digits. -/
theorem Short.le_or_le {c : ℚ} (h : Short c) {n : ℕ} (hn : 10 ^ (precision - 1) ≤ n) (e : ℤ) :
    c ≤ n * 10 ^ e ∨ (n + 1) * 10 ^ e ≤ c := by
  obtain ⟨m, f, hm, rfl⟩ := h
  have hpos := ten_zpow_pos e
  by_cases hef : e ≤ f
  · -- a multiple of the unit
    have hmul : (m : ℚ) * 10 ^ f = (m * 10 ^ (f - e).toNat : ℤ) * 10 ^ e := by
      push_cast
      rw [ten_zpow_toNat (by omega), mul_assoc, ← zpow_add₀ (by norm_num), sub_add_cancel]
    rw [hmul, mul_le_mul_iff_left₀ hpos, mul_le_mul_iff_left₀ hpos]
    generalize m * 10 ^ (f - e).toNat = k
    rcases le_or_gt k n with hk | hk
    · exact .inl (by exact_mod_cast hk)
    · exact .inr (by exact_mod_cast hk)
  · -- with a smaller unit it has not digits enough to go beyond
    have hm' : (m : ℚ) ≤ 10 ^ precision := by exact_mod_cast ((le_abs_self m).trans hm.le)
    have hn' : (10 : ℚ) ^ (precision - 1) ≤ n := by exact_mod_cast hn
    refine .inl ?_
    calc (m : ℚ) * 10 ^ f ≤ 10 ^ precision * 10 ^ (e - 1) := by
          refine mul_le_mul hm' (zpow_le_zpow_right₀ (by norm_num) (by omega)) ?_ (by positivity)
          exact (ten_zpow_pos f).le
      _ = 10 ^ (precision - 1) * 10 ^ e := by
          rw [zpow_sub_one₀ (by norm_num)]
          simp only [precision]
          ring
      _ ≤ n * 10 ^ e := mul_le_mul_of_nonneg_right hn' hpos.le

/-! ## Half-even rounding takes the nearest -/

/-- A number is rounded to the nearest integer, one half to the even one. -/
theorem halfEven_cases (x : ℚ) :
    (RoundingMode.halfEven.magnitude false x = ⌊x⌋₊ ∧ 2 * (x - ⌊x⌋₊) < 1) ∨
    (RoundingMode.halfEven.magnitude false x = ⌊x⌋₊ + 1 ∧ 1 < 2 * (x - ⌊x⌋₊)) ∨
    (2 * (x - ⌊x⌋₊) = 1 ∧ Even (RoundingMode.halfEven.magnitude false x) ∧
      (RoundingMode.halfEven.magnitude false x = ⌊x⌋₊ ∨
        RoundingMode.halfEven.magnitude false x = ⌊x⌋₊ + 1)) := by
  unfold RoundingMode.magnitude RoundingMode.raises
  rcases lt_trichotomy (2 * (x - ⌊x⌋₊)) 1 with h | h | h
  · rw [compare_lt_iff_lt.mpr h]
    exact .inl ⟨by simp, h⟩
  · have hne : x - ⌊x⌋₊ ≠ 0 := fun h0 => by norm_num [h0] at h
    rw [compare_eq_iff_eq.mpr h]
    refine .inr (.inr ⟨h, ?_⟩)
    rcases Nat.mod_two_eq_zero_or_one ⌊x⌋₊ with heven | hodd
    · simp [heven, Nat.even_iff]
    · simp [hne, hodd, Nat.even_add_one, Nat.even_iff]
  · have hne : x - ⌊x⌋₊ ≠ 0 := fun h0 => by norm_num [h0] at h
    rw [compare_gt_iff_gt.mpr h]
    exact .inr (.inl ⟨by simp [hne], h⟩)

theorem le_magnitude_halfEven {x : ℚ} : ⌊x⌋₊ ≤ RoundingMode.halfEven.magnitude false x := by
  obtain ⟨hR, -⟩ | ⟨hR, -⟩ | ⟨-, -, hR | hR⟩ := halfEven_cases x <;> omega

/-- No number outside of the neighbours of `x` is nearer to it than the integer that it is rounded
to, and one that is as near is so only if that integer is even. -/
theorem halfEven_nearest {x y : ℚ} (hx : 0 ≤ x) (hy : y ≤ ⌊x⌋₊ ∨ ⌊x⌋₊ + 1 ≤ y)
    (hne : y ≠ RoundingMode.halfEven.magnitude false x) :
    |x - RoundingMode.halfEven.magnitude false x| < |x - y| ∨
      (|x - RoundingMode.halfEven.magnitude false x| = |x - y| ∧
        Even (RoundingMode.halfEven.magnitude false x)) := by
  have hle := Nat.floor_le hx
  have hlt := Nat.lt_floor_add_one x
  have hlower : |x - ⌊x⌋₊| = x - ⌊x⌋₊ := abs_of_nonneg (by linarith)
  have hupper : |x - (⌊x⌋₊ + 1 : ℕ)| = ⌊x⌋₊ + 1 - x := by
    push_cast
    rw [abs_of_nonpos (by linarith)]
    ring
  have hdist : (y ≤ ⌊x⌋₊ ∧ |x - y| = x - y) ∨ (⌊x⌋₊ + 1 ≤ y ∧ |x - y| = y - x) := by
    rcases hy with h | h
    · exact .inl ⟨h, abs_of_nonneg (by linarith)⟩
    · refine .inr ⟨h, ?_⟩
      rw [abs_of_nonpos (by linarith)]
      ring
  obtain ⟨hR, hhalf⟩ | ⟨hR, hhalf⟩ | ⟨hhalf, heven, hR | hR⟩ := halfEven_cases x
  all_goals
    rw [hR] at hne ⊢
    push_cast at hne
  · rw [hlower]
    rcases hdist with ⟨h, hd⟩ | ⟨h, hd⟩
    · exact .inl (by rw [hd]; linarith [lt_of_le_of_ne h hne])
    · exact .inl (by rw [hd]; linarith)
  · rw [hupper]
    rcases hdist with ⟨h, hd⟩ | ⟨h, hd⟩
    · exact .inl (by rw [hd]; linarith)
    · exact .inl (by rw [hd]; linarith [lt_of_le_of_ne h hne.symm])
  · rw [hlower]
    rw [hR] at heven
    rcases hdist with ⟨h, hd⟩ | ⟨h, hd⟩
    · exact .inl (by rw [hd]; linarith [lt_of_le_of_ne h hne])
    · rw [hd]
      exact (show x - ⌊x⌋₊ ≤ y - x by linarith).lt_or_eq.imp_right fun heq => ⟨heq, heven⟩
  · rw [hupper]
    rw [hR] at heven
    rcases hdist with ⟨h, hd⟩ | ⟨h, hd⟩
    · rw [hd]
      exact (show ⌊x⌋₊ + 1 - x ≤ x - y by linarith).lt_or_eq.imp_right fun heq => ⟨heq, heven⟩
    · exact .inl (by rw [hd]; linarith [lt_of_le_of_ne h hne.symm])

/-- A short number is no nearer to `y` units than the rounded one, and as near only if that one is
even. -/
theorem Short.nearest {c y : ℚ} (h : Short c) (hy : 10 ^ (precision - 1) ≤ ⌊y⌋₊) {e : ℤ}
    (hne : c ≠ RoundingMode.halfEven.magnitude false y * 10 ^ e) :
    |y * 10 ^ e - RoundingMode.halfEven.magnitude false y * 10 ^ e| < |y * 10 ^ e - c| ∨
      (|y * 10 ^ e - RoundingMode.halfEven.magnitude false y * 10 ^ e| = |y * 10 ^ e - c| ∧
        Even (RoundingMode.halfEven.magnitude false y)) := by
  have hpos := ten_zpow_pos e
  have hy0 : 0 ≤ y := by
    refine zero_le_one.trans (Nat.floor_pos.mp (lt_of_lt_of_le ?_ hy))
    positivity
  obtain ⟨z, rfl⟩ : ∃ z, c = z * 10 ^ e := ⟨c / 10 ^ e, (div_mul_cancel₀ _ hpos.ne').symm⟩
  have hz : z ≤ ⌊y⌋₊ ∨ ⌊y⌋₊ + 1 ≤ z :=
    (h.le_or_le hy e).imp (fun h => le_of_mul_le_mul_right h hpos)
      (fun h => le_of_mul_le_mul_right h hpos)
  rw [← sub_mul, ← sub_mul, abs_mul, abs_mul, abs_of_pos hpos, mul_lt_mul_iff_left₀ hpos,
    mul_left_inj' hpos.ne']
  exact halfEven_nearest hy0 hz fun heq => hne (by rw [heq])

/-- A number of units is short just if nothing is left of it below the unit. -/
theorem short_mul_zpow {y : ℚ} (hy : 10 ^ (precision - 1) ≤ ⌊y⌋₊) (hlt : ⌊y⌋₊ < 10 ^ precision)
    (e : ℤ) : Short (y * 10 ^ e) ↔ y = ⌊y⌋₊ := by
  have hpos := ten_zpow_pos e
  refine ⟨fun h => ?_, fun h => ?_⟩
  · have hup := Nat.lt_floor_add_one y
    rcases h.le_or_le hy e with h | h
    · refine le_antisymm (le_of_mul_le_mul_right h hpos) (Nat.floor_le ?_)
      exact zero_le_one.trans (Nat.floor_pos.mp (lt_of_lt_of_le (by positivity) hy))
    · exact absurd (le_of_mul_le_mul_right h hpos) (not_le.mpr hup)
  · rw [h]
    exact short_natCast_mul hlt e

/-! ## The digits that are kept -/

theorem floor_kept {x : ℚ} (hD : precision < numDigits ⌊x⌋₊) :
    10 ^ (precision - 1) ≤ ⌊x / (10 ^ (numDigits ⌊x⌋₊ - precision) : ℕ)⌋₊ ∧
      ⌊x / (10 ^ (numDigits ⌊x⌋₊ - precision) : ℕ)⌋₊ < 10 ^ precision := by
  rw [Nat.floor_div_natCast]
  generalize ⌊x⌋₊ = Q at *
  have hQ : 0 < Q := Nat.pos_of_ne_zero fun h0 => by
    rw [h0] at hD
    exact absurd hD (by decide)
  obtain ⟨hlow, hup⟩ := numDigits_bounds hQ
  have hunit : 0 < 10 ^ (numDigits Q - precision) := by positivity
  rw [Nat.le_div_iff_mul_le hunit, Nat.div_lt_iff_lt_mul hunit, ← Nat.pow_add, ← Nat.pow_add]
  have hone : 1 ≤ precision := by decide
  rw [show precision - 1 + (numDigits Q - precision) = numDigits Q - 1 by omega,
    show precision + (numDigits Q - precision) = numDigits Q by omega]
  exact ⟨hlow, hup⟩

/-- Nothing is lost below a unit if the number is an integer that the unit divides. -/
theorem eq_floor_div_iff {x : ℚ} {U : ℕ} (hU : 0 < U) :
    x / U = ⌊x / U⌋₊ ↔ ⌊x⌋₊ % U = 0 ∧ x = ⌊x⌋₊ := by
  have hU' : (U : ℚ) ≠ 0 := by exact_mod_cast hU.ne'
  rw [Nat.floor_div_natCast, div_eq_iff hU']
  refine ⟨fun h => ?_, fun ⟨hmod, hfloor⟩ => ?_⟩
  · have hfloor : ⌊x⌋₊ = ⌊x⌋₊ / U * U := by
      conv_lhs => rw [h, ← Nat.cast_mul, Nat.floor_natCast]
    refine ⟨Nat.mod_eq_zero_of_dvd ⟨⌊x⌋₊ / U, by rw [mul_comm]; exact hfloor⟩, ?_⟩
    rw [hfloor]
    exact_mod_cast h
  · rw [← Nat.cast_mul, Nat.div_mul_cancel (Nat.dvd_of_mod_eq_zero hmod)]
    exact hfloor

/-- **The digits that rounding leaves**: as many as are kept, also where it carries into one digit
more, when what it leaves is a power of ten and as even as it was. -/
theorem roundSignificant_digits {x : ℚ} (hx : 0 ≤ x) (hD : precision < numDigits ⌊x⌋₊)
    {sticky : Bool} (hs : sticky = true ↔ x ≠ ⌊x⌋₊) {scale : Scale} {r : Rounded}
    (h : roundSignificant ⌊x⌋₊ scale sticky = some r) {y : ℚ}
    (hy : y = x / (10 ^ (numDigits ⌊x⌋₊ - precision) : ℕ)) :
    10 ^ (precision - 1) ≤ r.magnitude ∧ r.magnitude < 10 ^ precision ∧
      (Even (RoundingMode.halfEven.magnitude false y) → Even r.magnitude) ∧
      (r.exact = true ↔ y = ⌊y⌋₊) := by
  have hlow := le_magnitude_halfEven (x := y)
  obtain ⟨R, hR, hle, heq⟩ := roundSignificant_eq_bind hx hD hs scale
  rw [heq] at h
  have hexact : (⌊x⌋₊ % 10 ^ (numDigits ⌊x⌋₊ - precision) = 0 && !sticky : Bool) = true ↔
      y = ⌊y⌋₊ := by
    rw [hy, eq_floor_div_iff (by positivity), Bool.and_eq_true, decide_eq_true_iff,
      Bool.not_eq_true', ← Bool.not_eq_true, hs, not_not]
  have hkept : 10 ^ (precision - 1) ≤ ⌊y⌋₊ := hy ▸ (floor_kept hD).1
  rw [← hy] at hR
  rw [← hR] at hlow ⊢
  obtain ⟨s₁, -, h⟩ := Option.bind_eq_some_iff.mp h
  split_ifs at h with hcarry
  · obtain ⟨s₂, -, rfl⟩ := Option.map_eq_some_iff.mp h
    have hlt : ¬ R < 10 ^ precision := by
      rw [← numDigits_le_iff (by decide)]
      exact not_le.mpr hcarry
    obtain rfl : R = 10 ^ precision := le_antisymm hle (not_lt.mp hlt)
    exact ⟨show 10 ^ (precision - 1) ≤ 10 ^ precision / 10 by decide,
      show 10 ^ precision / 10 < 10 ^ precision by decide,
      fun _ => show Even (10 ^ precision / 10) by decide, hexact⟩
  · cases h
    exact ⟨hkept.trans hlow, (numDigits_le_iff (by decide)).mp (not_lt.mp hcarry), id, hexact⟩

/-! ## Trailing zeros -/

theorem le_trailingZeros {n k : ℕ} (h0 : n ≠ 0) (h : 10 ^ k ∣ n) : k ≤ trailingZeros n := by
  induction k generalizing n with
  | zero => exact Nat.zero_le _
  | succ k ih =>
    obtain ⟨m, rfl⟩ := h
    have hm : m ≠ 0 := right_ne_zero_of_mul h0
    have hdiv : 10 ^ (k + 1) * m / 10 = 10 ^ k * m := by
      rw [Nat.pow_succ', Nat.mul_assoc, Nat.mul_div_cancel_left _ (by decide)]
    have hmod : 10 ^ (k + 1) * m % 10 = 0 := by
      rw [Nat.pow_succ', Nat.mul_assoc, Nat.mul_mod_right]
    rw [trailingZeros, dif_pos ⟨h0, hmod⟩, hdiv]
    exact Nat.succ_le_succ (ih (Nat.mul_ne_zero (by positivity) hm) ⟨m, rfl⟩)

/-- Without its trailing zeros a number has none. -/
theorem trailingZeros_div {n : ℕ} (h : n ≠ 0) : trailingZeros (n / 10 ^ trailingZeros n) = 0 := by
  have hdvd := Nat.mul_dvd_of_dvd_div (pow_trailingZeros_dvd n)
    (pow_trailingZeros_dvd (n / 10 ^ trailingZeros n))
  rw [← Nat.pow_add] at hdvd
  have hle := le_trailingZeros h hdvd
  omega

/-- How far trailing zeros are removed. -/
theorem scale_stripZeros (d : Decimal) (least : Scale) :
    (d.stripZeros least).scale.toInt = max (d.scale.toInt - trailingZeros d.unscaled.natAbs)
      (min least.toInt d.scale.toInt) := by
  unfold stripZeros
  generalize hc : min (trailingZeros d.unscaled.natAbs) (d.scale.toInt - least.toInt).toNat = count
  have hfits : Scale.Fits (d.scale.toInt - count) := by
    have := d.scale.lower
    have := d.scale.upper
    have := least.lower
    unfold Scale.Fits
    omega
  obtain ⟨s, hs⟩ := Scale.exists_ofInt? hfits
  simp only [hs]
  rw [Scale.toInt_of_ofInt? hs]
  omega

/-- The least scale at which a number other than zero is written without trailing zeros. -/
theorem isLeast_scale {u : ℤ} (h0 : u ≠ 0) (s : ℤ) :
    IsLeast {m : ℤ | ∃ k : ℤ, (u : ℚ) * 10 ^ (-s) = k * 10 ^ (-m)} (s - trailingZeros u.natAbs) := by
  constructor
  · obtain ⟨k, hk⟩ := Int.natCast_dvd.mpr (pow_trailingZeros_dvd u.natAbs)
    refine ⟨k, ?_⟩
    rw [neg_sub, sub_eq_add_neg, zpow_add₀ (by norm_num), zpow_natCast]
    conv_lhs => rw [hk]
    push_cast
    ring
  · rintro m ⟨k, hk⟩
    by_contra! hlt
    -- a smaller scale would give one more zero at the end
    have hdvd : 10 ^ (trailingZeros u.natAbs + 1) ∣ u.natAbs := by
      refine (pow_dvd_pow 10 (show _ ≤ (s - m).toNat by omega)).trans ?_
      refine Int.natCast_dvd.mp ⟨k, ?_⟩
      have h : (u : ℚ) = k * 10 ^ (s - m) := by
        rw [sub_eq_neg_add, zpow_add₀ (by norm_num), ← mul_assoc, ← hk, mul_assoc,
          ← zpow_add₀ (by norm_num), neg_add_cancel, zpow_zero, mul_one]
      rw [← ten_zpow_toNat (by omega), mul_comm] at h
      exact_mod_cast h
    have := le_trailingZeros (Int.natAbs_ne_zero.mpr h0) hdvd
    omega

/-! ## Quotients -/

/-- What the quotient of two decimals has to be. -/
structure IsQuotient (a b r : Decimal) : Prop where
  /-- Zero is given at the preferred scale. -/
  zero : a.value = 0 → r.unscaled = 0 ∧ r.scale.toInt = a.scale.toInt - b.scale.toInt
  /-- A quotient that is not short gets all the digits that are kept, and no other short number is
  as near to it, unless the digits end in an even one. -/
  rounded : ¬ Short (a.value / b.value) →
    10 ^ (precision - 1) ≤ |r.unscaled| ∧ |r.unscaled| < 10 ^ precision ∧
      ∀ c, Short c → c ≠ r.value →
        |a.value / b.value - r.value| < |a.value / b.value - c| ∨
          (|a.value / b.value - r.value| = |a.value / b.value - c| ∧ Even r.unscaled)
  /-- A short quotient is exact. Its scale is the preferred one, but no less than it takes to write
  the quotient, and no larger than leaves it with the digits that are kept. -/
  exact : a.value ≠ 0 → Short (a.value / b.value) → r.value = a.value / b.value ∧
    ∃ least full : ℤ, IsLeast {m : ℤ | ∃ k : ℤ, a.value / b.value = k * 10 ^ (-m)} least ∧
      (∃ k : ℤ, a.value / b.value = k * 10 ^ (-full) ∧
        10 ^ (precision - 1) ≤ |k| ∧ |k| < 10 ^ precision) ∧
      r.scale.toInt = max least (min (a.scale.toInt - b.scale.toInt) full)
  /-- The sign is that of the quotient. -/
  sign : SignType.sign r.value = SignType.sign (a.value / b.value)

/-- A quotient other than zero, as a number `y` of units of its last kept digit, and what rounding
makes of it. -/
structure QuotientDigits (a b c : Decimal) (sign : ℤ) (y : ℚ) (e : ℤ) (d : Rounded)
    (preferred : Scale) : Prop where
  abs_sign : |sign| = 1
  low : 10 ^ (precision - 1) ≤ ⌊y⌋₊
  high : ⌊y⌋₊ < 10 ^ precision
  value_div : a.value / b.value = sign * (y * 10 ^ e)
  /-- The digits that are left. -/
  digits_low : 10 ^ (precision - 1) ≤ d.magnitude
  digits_high : d.magnitude < 10 ^ precision
  rounded : (d.magnitude : ℚ) * 10 ^ (-d.scale.toInt) =
    RoundingMode.halfEven.magnitude false y * 10 ^ e
  even : Even (RoundingMode.halfEven.magnitude false y) → Even d.magnitude
  exact_iff : d.exact = true ↔ y = ⌊y⌋₊
  preferred_eq : preferred.toInt = a.scale.toInt - b.scale.toInt
  /-- Trailing zeros are removed where nothing was lost. -/
  result : c = if d.exact then stripZeros ⟨sign * d.magnitude, d.scale⟩ preferred
    else ⟨sign * d.magnitude, d.scale⟩

theorem exists_quotient {a b c : Decimal} (h : a.div b = .ok c) (ha : a.unscaled ≠ 0) :
    ∃ sign y e d preferred, QuotientDigits a b c sign y e d preferred := by
  obtain ⟨hb, p, hp, ⟨h0, -⟩ | ⟨-, s, r, hs, hr, hc⟩⟩ := div_ok h
  · exact absurd h0 ha
  have hn : 0 < b.unscaled.natAbs := Int.natAbs_pos.mpr hb
  have hD := precision_lt_numDigits (Int.natAbs_pos.mpr ha) hn
  have hquot := value_div_value (a := a) hb
  generalize a.unscaled.natAbs = m, b.unscaled.natAbs = n at *
  generalize quotientShift m n = k at *
  generalize hx : ((m * 10 ^ k : ℕ) : ℚ) / n = x
  have hx0 : 0 ≤ x := by
    rw [← hx]
    positivity
  have hfloor : ⌊x⌋₊ = m * 10 ^ k / n := by rw [← hx, Nat.floor_div_eq_div]
  have hsticky := sticky_iff (m := m * 10 ^ k) hn
  rw [hx] at hsticky
  rw [← hfloor] at hr hD
  have hround := roundSignificant_ok hx0 hD hsticky hr
  generalize hy : x / (10 ^ (numDigits ⌊x⌋₊ - precision) : ℕ) = y at *
  obtain ⟨hlow, hup, heven, hexact⟩ := roundSignificant_digits hx0 hD hsticky hr hy.symm
  have hkept := floor_kept hD
  rw [hy] at hkept
  refine ⟨_, y, _, r, p, ?_, hkept.1, hkept.2, ?_, hlow, hup, hround, heven, hexact, hp, hc⟩
  · rw [abs_mul, Int.abs_sign_of_ne_zero ha, Int.abs_sign_of_ne_zero hb, one_mul]
  · rw [hquot]
    congr 1
    rw [show b.scale.toInt - a.scale.toInt = k - s.toInt by omega, appended_zeros, hx, ← hy,
      sub_eq_add_neg, zpow_add₀ (by norm_num), zpow_natCast, ← mul_assoc]
    push_cast
    rw [div_mul_cancel₀ _ (by positivity)]

namespace QuotientDigits

variable {a b c : Decimal} {sign : ℤ} {y : ℚ} {e : ℤ} {d : Rounded} {preferred : Scale}

theorem short_iff (h : QuotientDigits a b c sign y e d preferred) :
    Short (a.value / b.value) ↔ y = ⌊y⌋₊ := by
  rw [h.value_div, short_sign_mul h.abs_sign, short_mul_zpow h.low h.high]

/-- The digits that are left, with their sign. -/
theorem value_digits (h : QuotientDigits a b c sign y e d preferred) :
    (⟨sign * d.magnitude, d.scale⟩ : Decimal).value =
      sign * (RoundingMode.halfEven.magnitude false y * 10 ^ e) := by
  rw [← h.rounded, value]
  push_cast
  ring

theorem value_eq (h : QuotientDigits a b c sign y e d preferred) :
    c.value = sign * (RoundingMode.halfEven.magnitude false y * 10 ^ e) := by
  rw [h.result, ← h.value_digits]
  split_ifs
  · exact value_stripZeros _ _
  · rfl

theorem abs_digits (h : QuotientDigits a b c sign y e d preferred) :
    |sign * (d.magnitude : ℤ)| = d.magnitude := by
  rw [abs_mul, h.abs_sign, one_mul, Nat.abs_cast]

theorem digits_bounds (h : QuotientDigits a b c sign y e d preferred) :
    10 ^ (precision - 1) ≤ |sign * (d.magnitude : ℤ)| ∧
      |sign * (d.magnitude : ℤ)| < 10 ^ precision := by
  rw [h.abs_digits]
  exact ⟨by exact_mod_cast h.digits_low, by exact_mod_cast h.digits_high⟩

/-- Where something is dropped, the result is made of the digits that rounding leaves. -/
theorem result_of_not_short (h : QuotientDigits a b c sign y e d preferred)
    (hlong : ¬ Short (a.value / b.value)) : c = ⟨sign * d.magnitude, d.scale⟩ :=
  h.result.trans (if_neg fun hexact => hlong (h.short_iff.mpr (h.exact_iff.mp hexact)))

/-- Where nothing is dropped, rounding changes nothing. -/
theorem value_of_short (h : QuotientDigits a b c sign y e d preferred)
    (hs : Short (a.value / b.value)) :
    sign * (RoundingMode.halfEven.magnitude false y * 10 ^ e) = a.value / b.value := by
  have hy : (RoundingMode.halfEven.magnitude false y : ℚ) = y := by
    rw [h.short_iff.mp hs, RoundingMode.magnitude_natCast]
  rw [hy, h.value_div]

/-- No other short number is as near, unless the digits end in an even one. -/
theorem nearest (h : QuotientDigits a b c sign y e d preferred)
    (hlong : ¬ Short (a.value / b.value)) {x : ℚ} (hx : Short x) (hne : x ≠ c.value) :
    |a.value / b.value - c.value| < |a.value / b.value - x| ∨
      (|a.value / b.value - c.value| = |a.value / b.value - x| ∧ Even c.unscaled) := by
  have hsign : |(sign : ℚ)| = 1 := by exact_mod_cast h.abs_sign
  obtain ⟨x, rfl⟩ : ∃ x', x = sign * x' :=
    ⟨x / sign, (mul_div_cancel₀ _ (fun h0 => by norm_num [h0] at hsign)).symm⟩
  have hne' : x ≠ RoundingMode.halfEven.magnitude false y * 10 ^ e :=
    fun heq => hne (by rw [h.value_eq, heq])
  have hnearest := ((short_sign_mul h.abs_sign).mp hx).nearest h.low hne'
  have heven (hR : Even (RoundingMode.halfEven.magnitude false y)) : Even c.unscaled := by
    rw [h.result_of_not_short hlong, ← even_abs, h.abs_digits]
    exact_mod_cast h.even hR
  rw [h.value_eq, h.value_div, ← mul_sub, ← mul_sub, abs_mul, abs_mul, hsign, one_mul, one_mul]
  exact hnearest.imp_right (And.imp_right heven)

/-- The scale of an exact quotient is that of the digits without trailing zeros. -/
theorem scale_of_short (h : QuotientDigits a b c sign y e d preferred)
    (hs : Short (a.value / b.value)) :
    ∃ least full : ℤ, IsLeast {m : ℤ | ∃ k : ℤ, a.value / b.value = k * 10 ^ (-m)} least ∧
      (∃ k : ℤ, a.value / b.value = k * 10 ^ (-full) ∧
        10 ^ (precision - 1) ≤ |k| ∧ |k| < 10 ^ precision) ∧
      c.scale.toInt = max least (min (a.scale.toInt - b.scale.toInt) full) := by
  have hdigits : (⟨sign * d.magnitude, d.scale⟩ : Decimal).value = a.value / b.value :=
    h.value_digits.trans (h.value_of_short hs)
  have hne : sign * (d.magnitude : ℤ) ≠ 0 :=
    abs_pos.mp (lt_of_lt_of_le (by positivity) h.digits_bounds.1)
  have hleast := isLeast_scale hne d.scale.toInt
  rw [show ((sign * d.magnitude : ℤ) : ℚ) * 10 ^ (-d.scale.toInt) = _ from hdigits] at hleast
  refine ⟨_, d.scale.toInt, hleast, ⟨sign * d.magnitude, hdigits.symm, h.digits_bounds⟩, ?_⟩
  rw [h.result, if_pos (h.exact_iff.mpr (h.short_iff.mp hs)), scale_stripZeros, h.preferred_eq]

theorem sign_value (h : QuotientDigits a b c sign y e d preferred) :
    SignType.sign c.value = SignType.sign (a.value / b.value) := by
  have hy : 0 < y :=
    lt_of_lt_of_le one_pos (Nat.floor_pos.mp (lt_of_lt_of_le (by positivity) h.low))
  have hdigits : 0 < (d.magnitude : ℚ) * 10 ^ (-d.scale.toInt) := by
    refine mul_pos ?_ (ten_zpow_pos _)
    exact_mod_cast lt_of_lt_of_le (by positivity) h.digits_low
  rw [h.rounded] at hdigits
  rw [h.value_eq, h.value_div, sign_mul (sign : ℚ), sign_pos hdigits,
    sign_mul (sign : ℚ) (y * 10 ^ e), sign_pos (mul_pos hy (ten_zpow_pos e))]

end QuotientDigits

/-- **Division is correctly rounded**, and an exact quotient has the scale nearest to the preferred
one at which it can be written. -/
theorem div_correct {a b r : Decimal} (h : a.div b = .ok r) : IsQuotient a b r := by
  by_cases ha : a.unscaled = 0
  · obtain ⟨-, p, hp, ⟨-, rfl⟩ | ⟨h0, -⟩⟩ := div_ok h
    · have ha' : a.value = 0 := value_eq_zero.mpr ha
      have hq : a.value / b.value = 0 := by rw [ha', zero_div]
      refine ⟨fun _ => ⟨rfl, hp⟩, fun hs => absurd (hq ▸ short_zero) hs,
        fun h0 => absurd ha' h0, ?_⟩
      rw [hq, value_eq_zero.mpr rfl]
    · exact absurd ha h0
  obtain ⟨sign, y, e, d, p, hquotient⟩ := exists_quotient h ha
  constructor
  case zero => exact fun h0 => absurd (value_eq_zero.mp h0) ha
  case rounded =>
    intro hlong
    have hbounds := hquotient.digits_bounds
    have hunscaled : r.unscaled = sign * d.magnitude :=
      congrArg unscaled (hquotient.result_of_not_short hlong)
    rw [← hunscaled] at hbounds
    exact ⟨hbounds.1, hbounds.2, fun x hx hne => hquotient.nearest hlong hx hne⟩
  case exact =>
    exact fun _ hs => ⟨hquotient.value_eq.trans (hquotient.value_of_short hs),
      hquotient.scale_of_short hs⟩
  case sign => exact hquotient.sign_value

/-- Forty nines are rounded to one digit more. -/
theorem div_correct_carry :
    (ofInt (10 ^ 40 - 1)).div one = .ok ⟨10 ^ 33, ⟨-7, by decide, by decide⟩⟩ ∧
      IsQuotient (ofInt (10 ^ 40 - 1)) one ⟨10 ^ 33, ⟨-7, by decide, by decide⟩⟩ :=
  ⟨by rfl, div_correct (by rfl)⟩

end Reckon.Decimal
