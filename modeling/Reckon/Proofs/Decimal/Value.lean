import Mathlib.Algebra.Order.Field.Power
import Mathlib.Algebra.Order.Field.Rat
import Mathlib.Data.Int.Log
import Mathlib.Data.Rat.Floor
import Mathlib.Order.Compare
import Mathlib.Tactic.FieldSimp
import Mathlib.Tactic.Linarith
import Mathlib.Tactic.Positivity
import Mathlib.Tactic.Ring
import Reckon.Decimal.Arithmetic
import Reckon.Decimal.Integral
import Reckon.Decimal.Order
import Reckon.Proofs.Except

/-!
# The values of decimals

`value` is the rational number that a decimal stands for. Two decimals of one value may differ in
their scales; here the exact operations are shown to be operations on the values alone.

Results:
* `value_add`, `value_sub`, `value_mul`, `value_pow`: the exact operations give the sum, the
  difference, the product and the power of the values.
* `value_rem`: the remainder is what the truncated quotient of the values leaves.
* `compareValues_eq`: decimals are compared by their values.
* `toInteger_eq_some`, `toInteger_eq_none`: the integer of a decimal is its value, and there is
  none if the value is not an integer.
-/

namespace Reckon.Decimal

/-- The number that a decimal stands for. -/
def value (d : Decimal) : ℚ := d.unscaled * (10 : ℚ) ^ (-d.scale.toInt)

theorem ten_zpow_pos (n : ℤ) : (0 : ℚ) < 10 ^ n := zpow_pos (by norm_num) n

theorem ten_zpow_ne_zero (n : ℤ) : (10 : ℚ) ^ n ≠ 0 := (ten_zpow_pos n).ne'

theorem ten_zpow_toNat {n : ℤ} (h : 0 ≤ n) : (10 : ℚ) ^ n.toNat = 10 ^ n := by
  rw [← zpow_natCast, Int.toNat_of_nonneg h]

/-- The unscaled integer is the value, moved by the scale. -/
theorem value_mul_zpow (d : Decimal) : d.value * 10 ^ d.scale.toInt = d.unscaled := by
  rw [value, mul_assoc, ← zpow_add₀ (by norm_num), neg_add_cancel, zpow_zero, mul_one]

/-- A decimal is a value and a scale. -/
theorem eq_of_value {a b : Decimal} (hvalue : a.value = b.value) (hscale : a.scale = b.scale) :
    a = b := by
  have h := value_mul_zpow a
  rw [hvalue, hscale, value_mul_zpow] at h
  cases a; cases b; cases hscale
  exact congrArg (Decimal.mk · _) (Int.cast_injective h.symm)

theorem value_eq_zero {d : Decimal} : d.value = 0 ↔ d.unscaled = 0 := by
  simp [value, ten_zpow_ne_zero]

theorem value_pos {d : Decimal} : 0 < d.value ↔ 0 < d.unscaled := by
  rw [value, mul_pos_iff_of_pos_right (ten_zpow_pos _), Int.cast_pos]

theorem value_neg {d : Decimal} : d.value < 0 ↔ d.unscaled < 0 := by
  rw [value, ← not_le, mul_nonneg_iff_of_pos_right (ten_zpow_pos _), Int.cast_nonneg_iff, not_le]

theorem value_nonneg {d : Decimal} : 0 ≤ d.value ↔ 0 ≤ d.unscaled := by
  rw [← not_lt, value_neg, not_lt]

@[simp] theorem value_ofInt (n : ℤ) : (ofInt n).value = n := by
  simp [value, ofInt]

@[simp] theorem value_one : one.value = 1 := by
  rw [one, value_ofInt, Int.cast_one]

@[simp] theorem value_abs (d : Decimal) : d.abs.value = |d.value| := by
  rw [value, value, abs_mul, abs_of_pos (ten_zpow_pos _), abs]
  simp

theorem isZero_iff {d : Decimal} : d.isZero = true ↔ d.value = 0 := by
  rw [isZero, decide_eq_true_iff, value_eq_zero]

/-! ## Rescaling -/

/-- **What rescaling does**: the scale is the one asked for and the value stays, unless more zeros
than allowed have to be appended. -/
theorem rescale_ok {d e : Decimal} {s : Scale} (h : d.rescale s = .ok e) :
    e.scale = s ∧ e.value = d.value := by
  unfold rescale at h
  split at h
  · cases h
  · rename_i gap hgap
    have hgap := Scale.toInt_of_ofInt? hgap
    split_ifs at h with h0 hr
    · cases h
      refine ⟨rfl, ?_⟩
      rw [value_eq_zero.mpr h0]
      exact value_eq_zero.mpr rfl
    · cases h
      refine ⟨rfl, ?_⟩
      simp only [value]
      push_cast
      rw [mul_assoc, ten_zpow_toNat hr.1, ← zpow_add₀ (by norm_num), hgap]
      congr 2
      omega

/-- **Aligned decimals** keep their values and share the larger scale. -/
theorem align_ok {a b : Decimal} {p : Decimal × Decimal} (h : align a b = .ok p) :
    p.1.value = a.value ∧ p.2.value = b.value ∧ p.1.scale = Scale.max a.scale b.scale ∧
      p.2.scale = Scale.max a.scale b.scale := by
  obtain ⟨a', ha, h⟩ := bind_ok h
  obtain ⟨b', hb, h⟩ := bind_ok h
  cases h
  obtain ⟨hsa, hva⟩ := rescale_ok ha
  obtain ⟨hsb, hvb⟩ := rescale_ok hb
  exact ⟨hva, hvb, hsa, hsb⟩

/-! ## The exact operations -/

theorem value_add {a b c : Decimal} (h : a.add b = .ok c) :
    c.value = a.value + b.value ∧ c.scale = Scale.max a.scale b.scale := by
  obtain ⟨⟨a', b'⟩, hp, h⟩ := bind_ok h
  obtain ⟨hva, hvb, hsa, hsb⟩ := align_ok hp
  simp only at hva hvb hsa hsb
  cases h
  refine ⟨?_, hsa⟩
  rw [← hva, ← hvb, value, value, value, hsa, hsb]
  push_cast
  ring

theorem value_sub {a b c : Decimal} (h : a.sub b = .ok c) :
    c.value = a.value - b.value ∧ c.scale = Scale.max a.scale b.scale := by
  obtain ⟨⟨a', b'⟩, hp, h⟩ := bind_ok h
  obtain ⟨hva, hvb, hsa, hsb⟩ := align_ok hp
  simp only at hva hvb hsa hsb
  cases h
  refine ⟨?_, hsa⟩
  rw [← hva, ← hvb, value, value, value, hsa, hsb]
  push_cast
  ring

theorem make_ok {unscaled scale : ℤ} {c : Decimal} (h : make unscaled scale = .ok c) :
    c.unscaled = unscaled ∧ c.scale.toInt = scale := by
  unfold make at h
  split at h
  · rename_i s hs
    cases h
    exact ⟨rfl, Scale.toInt_of_ofInt? hs⟩
  · cases h

theorem value_mul {a b c : Decimal} (h : a.mul b = .ok c) :
    c.value = a.value * b.value ∧ c.scale.toInt = a.scale.toInt + b.scale.toInt := by
  obtain ⟨hu, hs⟩ := make_ok h
  refine ⟨?_, hs⟩
  rw [value, value, value, hu, hs, neg_add, zpow_add₀ (by norm_num)]
  push_cast
  ring

theorem value_pow {a c : Decimal} {n : ℕ} (h : a.pow n = .ok c) :
    c.value = a.value ^ n ∧ c.scale.toInt = a.scale.toInt * n := by
  unfold pow at h
  split at h
  · rename_i s hs
    cases h
    have hs := Scale.toInt_of_ofInt? hs
    refine ⟨?_, hs⟩
    rw [value, value, hs, mul_pow, ← zpow_natCast ((10 : ℚ) ^ _), ← zpow_mul, neg_mul]
    push_cast
    rfl
  · cases h

/-- The integer part of a number. -/
def truncated (q : ℚ) : ℤ := if 0 ≤ q then ⌊q⌋ else ⌈q⌉

theorem truncated_neg (q : ℚ) : truncated (-q) = -truncated q := by
  unfold truncated
  rcases lt_trichotomy q 0 with h | rfl | h
  · rw [if_pos (by linarith), if_neg (by linarith), Int.floor_neg]
  · simp
  · rw [if_neg (by linarith), if_pos h.le, Int.ceil_neg]

theorem truncated_div (m n : ℤ) : truncated ((m : ℚ) / n) = m.tdiv n := by
  have hnat (m n : ℕ) : truncated ((m : ℚ) / n) = (m : ℤ).tdiv n := by
    rw [truncated, if_pos (by positivity), Rat.floor_natCast_div_natCast]
    rfl
  obtain hm | hm := Int.natAbs_eq m <;> obtain hn | hn := Int.natAbs_eq n
  all_goals
    rw [hm, hn]
    simp only [Int.cast_neg, Int.cast_natCast, neg_div, div_neg, truncated_neg, hnat, Int.neg_tdiv,
      Int.tdiv_neg]

theorem value_rem {a b c : Decimal} (h : a.rem b = .ok c) :
    b.value ≠ 0 ∧ c.value = a.value - b.value * truncated (a.value / b.value) ∧
      c.scale = Scale.max a.scale b.scale := by
  unfold rem at h
  split at h
  · cases h
  · rename_i hb
    obtain ⟨⟨a', b'⟩, hp, h⟩ := bind_ok h
    obtain ⟨hva, hvb, hsa, hsb⟩ := align_ok hp
    simp only at hva hvb hsa hsb
    cases h
    refine ⟨fun h0 => hb (value_eq_zero.mp h0), ?_, hsa⟩
    -- at one scale the quotient of the values is that of the unscaled integers
    have hq : a'.value / b'.value = a'.unscaled / b'.unscaled := by
      rw [value, value, hsa, hsb, mul_div_mul_right _ _ (ten_zpow_ne_zero _)]
    rw [← hva, ← hvb, hq, truncated_div, value, value, value, hsa, hsb, Int.tmod_def]
    push_cast
    ring

/-! ## The first digit -/

theorem numDigits_bounds {n : ℕ} (h : 0 < n) :
    10 ^ (numDigits n - 1) ≤ n ∧ n < 10 ^ numDigits n := by
  have hpos := numDigits_pos n
  refine ⟨?_, (numDigits_le_iff hpos).mp le_rfl⟩
  by_cases h1 : numDigits n = 1
  · rw [h1]
    exact h
  · refine not_lt.mp fun hlt => ?_
    have hle := (numDigits_le_iff (by omega)).mpr hlt
    omega

/-- The first digit of a number stands where the digits of its integer part and the scale say. -/
theorem log_mul_zpow {x : ℚ} (h : 1 ≤ x) (s : ℤ) :
    Int.log 10 (x * 10 ^ (-s)) = numDigits ⌊x⌋₊ - 1 - s := by
  obtain ⟨hl, hu⟩ := numDigits_bounds (Nat.floor_pos.mpr h)
  have hpos := numDigits_pos ⌊x⌋₊
  have hx : (0 : ℚ) ≤ x := by linarith
  have hv : (0 : ℚ) < x * 10 ^ (-s) := mul_pos (by linarith) (ten_zpow_pos _)
  have hcast : ((10 : ℕ) : ℚ) = 10 := by norm_num
  have hl' : (10 : ℚ) ^ ((numDigits ⌊x⌋₊ : ℤ) - 1) ≤ x := by
    have h := (Nat.le_floor_iff hx).mp hl
    rw [Nat.cast_pow, hcast, ← zpow_natCast] at h
    rwa [Nat.cast_sub hpos] at h
  have hu' : x < 10 ^ (numDigits ⌊x⌋₊ : ℤ) := by
    have h := (Nat.floor_lt hx).mp hu
    rwa [Nat.cast_pow, hcast, ← zpow_natCast] at h
  refine le_antisymm ?_ ?_
  · refine Int.lt_add_one_iff.mp ((Int.lt_zpow_iff_log_lt (by norm_num) hv).mp ?_)
    calc x * 10 ^ (-s) < 10 ^ (numDigits ⌊x⌋₊ : ℤ) * 10 ^ (-s) :=
          mul_lt_mul_of_pos_right hu' (ten_zpow_pos _)
      _ = ((10 : ℕ) : ℚ) ^ (numDigits ⌊x⌋₊ - 1 - s + 1) := by
        rw [hcast, ← zpow_add₀ (by norm_num)]
        congr 1
        ring
  · refine (Int.zpow_le_iff_le_log (by norm_num) hv).mp ?_
    calc ((10 : ℕ) : ℚ) ^ ((numDigits ⌊x⌋₊ : ℤ) - 1 - s)
        = 10 ^ ((numDigits ⌊x⌋₊ : ℤ) - 1) * 10 ^ (-s) := by
          rw [hcast, ← zpow_add₀ (by norm_num)]
          congr 1
      _ ≤ x * 10 ^ (-s) := mul_le_mul_of_nonneg_right hl' (ten_zpow_pos _).le

theorem log_natCast_mul {n : ℕ} (h : 0 < n) (s : ℤ) :
    Int.log 10 ((n : ℚ) * 10 ^ (-s)) = numDigits n - 1 - s := by
  have h1 : (1 : ℚ) ≤ n := by exact_mod_cast h
  rw [log_mul_zpow h1, Nat.floor_natCast]

/-! ## Comparisons -/

theorem compareMagnitudes_eq {m n : ℕ} (hm : 0 < m) (hn : 0 < n) (s t : ℤ) :
    compareMagnitudes m s n t = compare ((m : ℚ) * 10 ^ (-s)) (n * 10 ^ (-t)) := by
  have hA : (0 : ℚ) < m * 10 ^ (-s) := mul_pos (by exact_mod_cast hm) (ten_zpow_pos _)
  have hB : (0 : ℚ) < n * 10 ^ (-t) := mul_pos (by exact_mod_cast hn) (ten_zpow_pos _)
  have hlA := log_natCast_mul hm s
  have hlB := log_natCast_mul hn t
  have hlt {x y : ℚ} (hy : 0 < y) (h : Int.log 10 x < Int.log 10 y) : x < y :=
    not_le.mp fun hle => absurd (Int.log_mono_right hy hle) (not_le.mpr h)
  unfold compareMagnitudes
  rcases lt_trichotomy ((numDigits m : ℤ) - s) ((numDigits n : ℤ) - t) with h | h | h
  · rw [compare_lt_iff_lt.mpr h, compare_lt_iff_lt.mpr (hlt hB (by omega))]
    rfl
  · simp only [compare_eq_iff_eq.mpr h, if_true]
    -- the gap between the scales is the difference of the digit counts
    have key (k x : ℕ) (u : ℤ) : ((x * 10 ^ k : ℕ) : ℚ) = x * 10 ^ (-u) * 10 ^ (k + u) := by
      push_cast
      rw [mul_assoc, ← zpow_add₀ (by norm_num), ← zpow_natCast]
      congr 2
      ring
    have hu : ((numDigits n - numDigits m : ℕ) : ℤ) + s = (numDigits m - numDigits n : ℕ) + t := by
      omega
    rw [← cmp_eq_compare, ← cmp_eq_compare, ← (Nat.strictMono_cast (α := ℚ)).cmp_map_eq,
      key _ m s, key _ n t, hu, cmp_mul_pos_right (ten_zpow_pos _)]
  · rw [compare_gt_iff_gt.mpr h, compare_gt_iff_gt.mpr (hlt hA (by omega))]
    rfl

theorem value_eq_natAbs_of_pos {d : Decimal} (h : 0 < d.unscaled) :
    d.value = d.unscaled.natAbs * 10 ^ (-d.scale.toInt) := by
  rw [value, Nat.cast_natAbs, abs_of_pos h]

theorem value_eq_natAbs_of_neg {d : Decimal} (h : d.unscaled < 0) :
    d.value = -1 * (d.unscaled.natAbs * 10 ^ (-d.scale.toInt)) := by
  rw [value, Nat.cast_natAbs, abs_of_neg h]
  push_cast
  ring

theorem value_lt_of_sign_lt {a b : Decimal} (h : a.unscaled.sign < b.unscaled.sign) :
    a.value < b.value := by
  rcases lt_trichotomy a.unscaled 0 with ha | ha | ha
  · rcases lt_trichotomy b.unscaled 0 with hb | hb | hb
    · rw [Int.sign_eq_neg_one_of_neg ha, Int.sign_eq_neg_one_of_neg hb] at h
      exact absurd h (lt_irrefl _)
    · exact (value_neg.mpr ha).trans_eq (value_eq_zero.mpr hb).symm
    · exact (value_neg.mpr ha).trans (value_pos.mpr hb)
  · rw [ha, Int.sign_zero, Int.sign_pos_iff] at h
    exact (value_eq_zero.mpr ha).trans_lt (value_pos.mpr h)
  · rw [Int.sign_eq_one_of_pos ha] at h
    rcases Int.sign_trichotomy b.unscaled with hb | hb | hb <;> omega

/-- **Decimals are compared by their values**, however far their scales are apart. -/
theorem compareValues_eq (a b : Decimal) : compareValues a b = compare a.value b.value := by
  unfold compareValues
  rcases lt_trichotomy a.unscaled.sign b.unscaled.sign with h | h | h
  · rw [compare_lt_iff_lt.mpr h, compare_lt_iff_lt.mpr (value_lt_of_sign_lt h)]
  · rw [compare_eq_iff_eq.mpr h]
    simp only
    rcases lt_trichotomy a.unscaled 0 with ha | ha | ha
    · have hb : b.unscaled < 0 := by
        rwa [Int.sign_eq_neg_one_of_neg ha, eq_comm, Int.sign_eq_neg_one_iff_neg] at h
      rw [if_neg ha.ne, if_neg ha.not_gt, compareMagnitudes_eq (by omega) (by omega),
        value_eq_natAbs_of_neg ha, value_eq_natAbs_of_neg hb, ← cmp_eq_compare, ← cmp_eq_compare,
        cmp_mul_neg_left (by norm_num)]
    · have hb : b.unscaled = 0 := by rwa [ha, Int.sign_zero, eq_comm, Int.sign_eq_zero_iff_zero] at h
      rw [if_pos ha, value_eq_zero.mpr ha, value_eq_zero.mpr hb, compare_eq_iff_eq.mpr rfl]
    · have hb : 0 < b.unscaled := by
        rwa [Int.sign_eq_one_of_pos ha, eq_comm, Int.sign_eq_one_iff_pos] at h
      rw [if_neg ha.ne', if_pos ha, compareMagnitudes_eq (by omega) (by omega),
        value_eq_natAbs_of_pos ha, value_eq_natAbs_of_pos hb]
  · rw [compare_gt_iff_gt.mpr h, compare_gt_iff_gt.mpr (value_lt_of_sign_lt h)]

theorem eqValue_iff {a b : Decimal} : a.eqValue b = true ↔ a.value = b.value := by
  rw [eqValue, decide_eq_true_iff, compareValues_eq, compare_eq_iff_eq]

theorem ltValue_iff {a b : Decimal} : a.ltValue b = true ↔ a.value < b.value := by
  rw [ltValue, decide_eq_true_iff, compareValues_eq, compare_lt_iff_lt]

theorem leValue_iff {a b : Decimal} : a.leValue b = true ↔ a.value ≤ b.value := by
  rw [leValue, decide_eq_true_iff, compareValues_eq, Ne, compare_gt_iff_gt, not_lt]

/-! ## Integers -/

theorem value_of_scale_nonpos {d : Decimal} (h : d.scale.toInt ≤ 0) :
    d.value = (d.unscaled * 10 ^ (-d.scale.toInt).toNat : ℤ) := by
  push_cast
  rw [ten_zpow_toNat (by omega), value]

/-- **A decimal is integral just if its value is an integer.** -/
theorem isIntegral_iff {d : Decimal} : d.isIntegral = true ↔ ∃ n : ℤ, d.value = n := by
  have hd := value_mul_zpow d
  constructor
  · intro h
    simp only [isIntegral, Bool.or_eq_true, Bool.and_eq_true, decide_eq_true_iff, or_assoc] at h
    by_cases hs : d.scale.toInt ≤ 0
    · exact ⟨_, value_of_scale_nonpos hs⟩
    obtain h | h | ⟨-, h⟩ := h
    · exact absurd h hs
    · exact ⟨0, by rw [value_eq_zero.mpr h, Int.cast_zero]⟩
    · obtain ⟨n, hn⟩ := Int.natCast_dvd.mpr (Nat.dvd_of_mod_eq_zero h)
      refine ⟨n, mul_right_cancel₀ (ten_zpow_ne_zero d.scale.toInt) ?_⟩
      rw [hd, hn, ← ten_zpow_toNat (by omega)]
      push_cast
      ring
  · rintro ⟨n, hn⟩
    simp only [isIntegral, Bool.or_eq_true, Bool.and_eq_true, decide_eq_true_iff, or_assoc]
    by_cases hs : d.scale.toInt ≤ 0
    · exact Or.inl hs
    by_cases h0 : d.unscaled = 0
    · exact Or.inr (Or.inl h0)
    rw [hn, ← ten_zpow_toNat (by omega)] at hd
    have hu : d.unscaled = n * 10 ^ d.scale.toInt.toNat := by exact_mod_cast hd.symm
    have habs : d.unscaled.natAbs = n.natAbs * 10 ^ d.scale.toInt.toNat := by
      rw [hu, Int.natAbs_mul, Int.natAbs_pow]
      rfl
    refine Or.inr (Or.inr ⟨?_, by rw [habs, Nat.mul_mod_left]⟩)
    have hpos : 0 < n.natAbs := by
      refine Int.natAbs_pos.mpr ?_
      rintro rfl
      exact h0 (by rw [hu, zero_mul])
    have hle : 10 ^ d.scale.toInt.toNat ≤ d.unscaled.natAbs := by
      rw [habs]
      exact Nat.le_mul_of_pos_left _ hpos
    have hnot : ¬ numDigits d.unscaled.natAbs ≤ d.scale.toInt.toNat := by
      rw [numDigits_le_iff (by omega)]
      exact not_lt.mpr hle
    rw [digits]
    omega

theorem toInteger_eq_some {d : Decimal} {n : ℤ} (h : d.toInteger = .ok (some n)) : d.value = n := by
  unfold toInteger at h
  by_cases hi : d.isIntegral = true
  · rw [if_pos hi] at h
    split_ifs at h with hs h0
    · obtain ⟨e, he, hn⟩ := map_ok h
      obtain ⟨hscale, hv⟩ := rescale_ok he
      cases hn
      rw [← hv, value, hscale]
      simp
    · cases h
      rw [value_eq_zero.mpr h0, Int.cast_zero]
    · obtain ⟨m, hm⟩ := isIntegral_iff.mp hi
      cases h
      have hd := value_mul_zpow d
      rw [hm, ← ten_zpow_toNat (by omega)] at hd
      have hu : d.unscaled = m * 10 ^ d.scale.toInt.toNat := by exact_mod_cast hd.symm
      rw [hm, hu, Int.mul_tdiv_cancel _ (by positivity)]
  · rw [if_neg hi] at h
    cases h

theorem toInteger_eq_none {d : Decimal} (h : d.toInteger = .ok none) : d.isIntegral = false := by
  unfold toInteger at h
  by_cases hi : d.isIntegral = true
  · rw [if_pos hi] at h
    split_ifs at h with hs
    · obtain ⟨e, -, hn⟩ := map_ok h
      cases hn
    · cases h
    · cases h
  · exact Bool.eq_false_iff.mpr hi

end Reckon.Decimal
