import Mathlib.Algebra.Order.Field.Power
import Mathlib.Algebra.Order.Field.Rat
import Mathlib.Order.Compare
import Mathlib.Order.Monotone.Basic
import Mathlib.Tactic.FieldSimp
import Mathlib.Tactic.Linarith
import Mathlib.Tactic.NormNum
import Mathlib.Tactic.Positivity
import Mathlib.Tactic.Ring
import Reckon.Binary64.Basic

/-!
# Rounding to the nearest binary64 number

`ofBits bits` is the number that the magnitude with these bits stands for, and `Nearest r bits` says
that no number of the format is nearer to `r`, and that the significand is even if another one is
equally near. Both go on above the largest finite number as if there were larger exponents: a number
is rounded to infinity just if a number up there is the nearest.

From one number to the next it is a step of `gap bits`, which is never less than the larger of the
two over `2 ^ 53`.

Results:
* `significand_mul_zpow`: the value of a finite number.
* `Nearest.unique`, `Nearest.between`: the nearest number is unique, and what lies between it and
  what it is nearest to is rounded to it as well.
* `nearest_of_close`: a ratio much nearer than the steps are long.
* `roundBits_eq_iff`: `roundBits` rounds to the nearest number.
-/

namespace Reckon.Binary64

/-! ## Ratios and powers -/

/-- A power with an integral exponent as a quotient of powers with natural ones. -/
theorem zpow_eq_div (b : ℚ) (n : ℤ) : b ^ n = b ^ n.toNat / b ^ (-n).toNat := by
  obtain ⟨k, rfl | rfl⟩ := n.eq_nat_or_neg
  · rw [Int.toNat_natCast, Int.toNat_neg_natCast, pow_zero, div_one, zpow_natCast]
  · rw [neg_neg, Int.toNat_natCast, Int.toNat_neg_natCast, pow_zero, zpow_neg, zpow_natCast, one_div]

/-- A ratio over a power, as it is written with natural numbers. -/
theorem scaled_ratio (b num den : ℕ) (n : ℤ) :
    ((num * b ^ (-n).toNat : ℕ) : ℚ) / (den * b ^ n.toNat : ℕ) = num / den / (b : ℚ) ^ n := by
  rw [zpow_eq_div]
  push_cast
  field_simp

/-- A power against a ratio. -/
theorem zpow_le_ratio_iff {b den : ℕ} (hb : 0 < b) (hden : 0 < den) (num : ℕ) (n : ℤ) :
    (b : ℚ) ^ n ≤ num / den ↔ den * b ^ n.toNat ≤ num * b ^ (-n).toNat := by
  have hb' : (0 : ℚ) < b := by exact_mod_cast hb
  have hden' : (0 : ℚ) < den := by exact_mod_cast hden
  rw [zpow_eq_div, div_le_div_iff₀ (by positivity) hden', mul_comm]
  exact_mod_cast Iff.rfl

/-- A ratio as an integer and a rest. -/
theorem ratio_eq_add (num : ℕ) {den : ℕ} (hden : 0 < den) :
    (num : ℚ) / den = (num / den : ℕ) + ((num % den : ℕ) : ℚ) / den := by
  have hden' : (den : ℚ) ≠ 0 := by exact_mod_cast hden.ne'
  rw [div_eq_iff hden', add_mul, div_mul_cancel₀ _ hden']
  exact_mod_cast (Nat.div_add_mod' num den).symm

/-! ## The numbers of the format -/

/-- How far it is from the number with these magnitude bits to the next larger one. -/
def gap (bits : ℕ) : ℚ := 2 ^ (((bits / 2 ^ 52 - 1 : ℕ) : ℤ) - 1074)

/-- The number that these magnitude bits stand for. -/
def ofBits (bits : ℕ) : ℚ := (if bits < 2 ^ 52 then bits else 2 ^ 52 + bits % 2 ^ 52 : ℕ) * gap bits

theorem gap_pos (bits : ℕ) : 0 < gap bits := zpow_pos (by norm_num) _

/-- The value of a finite number. -/
theorem significand_mul_zpow (x : Binary64) :
    (x.significand : ℚ) * 2 ^ x.exponent = ofBits x.magnitude := by
  unfold ofBits gap significand exponent exponentField fractionField
  by_cases h : x.magnitude < 2 ^ 52
  · have hfield : x.magnitude / 2 ^ 52 = 0 := Nat.div_eq_of_lt h
    rw [if_pos hfield, if_pos hfield, if_pos h, hfield, Nat.mod_eq_of_lt h]
    norm_num
  · have hfield : ¬x.magnitude / 2 ^ 52 = 0 := by omega
    rw [if_neg hfield, if_neg hfield, if_neg h]
    congr 2
    omega

section Steps

variable {k m : ℕ}

/-- The step behind a significand of at most 53 bits. -/
theorem gap_add (hm : m < 2 ^ 53) (hk : k = 0 ∨ 2 ^ 52 ≤ m) :
    gap (k * 2 ^ 52 + m) = 2 ^ ((k : ℤ) - 1074) := by
  have hfield : (k * 2 ^ 52 + m) / 2 ^ 52 - 1 = k := by omega
  rw [gap, hfield]

/-- The number of a significand and an exponent, a significand that carries included. -/
theorem ofBits_add (hm : m ≤ 2 ^ 53) (hk : k = 0 ∨ 2 ^ 52 ≤ m) :
    ofBits (k * 2 ^ 52 + m) = m * 2 ^ ((k : ℤ) - 1074) := by
  rcases Nat.lt_or_eq_of_le hm with hlt | rfl
  · have hsignificand : (if k * 2 ^ 52 + m < 2 ^ 52 then k * 2 ^ 52 + m
        else 2 ^ 52 + (k * 2 ^ 52 + m) % 2 ^ 52) = m := by
      split_ifs <;> omega
    rw [ofBits, gap_add hlt hk, hsignificand]
  · have hsignificand : (if k * 2 ^ 52 + 2 ^ 53 < 2 ^ 52 then k * 2 ^ 52 + 2 ^ 53
        else 2 ^ 52 + (k * 2 ^ 52 + 2 ^ 53) % 2 ^ 52) = 2 ^ 52 := by
      rw [if_neg (by omega)]
      omega
    have hfield : (((k * 2 ^ 52 + 2 ^ 53) / 2 ^ 52 - 1 : ℕ) : ℤ) - 1074 = k - 1074 + 1 := by omega
    rw [ofBits, gap, hsignificand, hfield, zpow_add_one₀ (by norm_num)]
    push_cast
    ring

end Steps

/-- Magnitude bits as a significand and an exponent. -/
theorem exists_add (bits : ℕ) :
    ∃ k m, bits = k * 2 ^ 52 + m ∧ m < 2 ^ 53 ∧ (k = 0 ∨ 2 ^ 52 ≤ m) := by
  by_cases h : bits < 2 ^ 52
  · exact ⟨0, bits, by omega, by omega, .inl rfl⟩
  · exact ⟨bits / 2 ^ 52 - 1, 2 ^ 52 + bits % 2 ^ 52, by omega, by omega, .inr (by omega)⟩

theorem ofBits_succ (bits : ℕ) : ofBits (bits + 1) = ofBits bits + gap bits := by
  obtain ⟨k, m, rfl, hm, hk⟩ := exists_add bits
  rw [Nat.add_assoc, ofBits_add hm (by omega), ofBits_add hm.le hk, gap_add hm hk]
  push_cast
  ring

/-- The steps are not short. -/
theorem ofBits_succ_le (bits : ℕ) : ofBits (bits + 1) ≤ 2 ^ 53 * gap bits := by
  obtain ⟨k, m, rfl, hm, hk⟩ := exists_add bits
  rw [Nat.add_assoc, ofBits_add hm (by omega), gap_add hm hk]
  refine mul_le_mul_of_nonneg_right ?_ (zpow_pos (by norm_num) _).le
  exact_mod_cast hm

theorem strictMono_ofBits : StrictMono ofBits :=
  strictMono_nat_of_lt_succ fun bits => by
    rw [ofBits_succ]
    exact lt_add_of_pos_right _ (gap_pos bits)

theorem ofBits_zero : ofBits 0 = 0 := by
  rw [ofBits, if_pos (by norm_num), Nat.cast_zero, zero_mul]

/-! ## The nearest number -/

/-- No number of the format is nearer to `r`, and none but an even one has another equally near. -/
structure Nearest (r : ℚ) (bits : ℕ) : Prop where
  closest : ∀ other, |r - ofBits bits| ≤ |r - ofBits other|
  even : ∀ other, other ≠ bits → |r - ofBits bits| = |r - ofBits other| → bits % 2 = 0

namespace Nearest

variable {r s : ℚ} {bits : ℕ}

/-- Of two numbers that are equally near only one can be the nearest: if both are even, there is one
between them. -/
theorem unique {other : ℕ} (h : Nearest r bits) (h' : Nearest r other) : bits = other := by
  wlog hlt : bits < other generalizing bits other
  · rcases Nat.lt_or_eq_of_le (Nat.not_lt.mp hlt) with hgt | heq
    · exact (this h' h hgt).symm
    · exact heq.symm
  exfalso
  have heq : |r - ofBits bits| = |r - ofBits other| := le_antisymm (h.closest _) (h'.closest _)
  have heven := h.even other hlt.ne' heq
  have heven' := h'.even bits hlt.ne heq.symm
  have hbetween : ofBits bits < ofBits (bits + 1) ∧ ofBits (bits + 1) < ofBits other :=
    ⟨strictMono_ofBits (by omega), strictMono_ofBits (by omega)⟩
  -- the ratio is the midpoint, so the number in between is nearer
  have hmid : r - ofBits bits = ofBits other - r := by
    rcases abs_eq_abs.mp heq with hsame | hmid <;> linarith
  have hnearer : |r - ofBits (bits + 1)| < r - ofBits bits := by
    rw [abs_lt]
    constructor <;> linarith
  have hle := h.closest (bits + 1)
  rw [abs_of_pos (by linarith)] at hle
  linarith

/-- **What lies between a number and its nearest** is rounded to the same. -/
theorem between (h : Nearest r bits)
    (hs : r ≤ s ∧ s ≤ ofBits bits ∨ ofBits bits ≤ s ∧ s ≤ r) : Nearest s bits := by
  have hsum : |r - ofBits bits| = |r - s| + |s - ofBits bits| := by
    rcases hs with ⟨h₁, h₂⟩ | ⟨h₁, h₂⟩
    · rw [abs_of_nonpos (by linarith), abs_of_nonpos (by linarith), abs_of_nonpos (by linarith)]
      ring
    · rw [abs_of_nonneg (by linarith), abs_of_nonneg (by linarith), abs_of_nonneg (by linarith)]
      ring
  have hdetour (other : ℕ) : |r - ofBits other| ≤ |r - s| + |s - ofBits other| := abs_sub_le _ _ _
  refine ⟨fun other => ?_, fun other hne heq => h.even other hne ?_⟩
  · linarith [h.closest other, hdetour other]
  · exact le_antisymm (h.closest other) (by linarith [hdetour other])

end Nearest

/-- What is at most half a step away on either side. -/
theorem nearest_of_gap {r : ℚ} {bits : ℕ}
    (hup : ofBits bits < r → 2 * (r - ofBits bits) ≤ gap bits ∧
      (2 * (r - ofBits bits) = gap bits → bits % 2 = 0))
    (hdown : ∀ below, bits = below + 1 → r < ofBits bits → 2 * (ofBits bits - r) ≤ gap below ∧
      (2 * (ofBits bits - r) = gap below → bits % 2 = 0)) : Nearest r bits := by
  have key (other : ℕ) (hne : other ≠ bits) : |r - ofBits bits| ≤ |r - ofBits other| ∧
      (|r - ofBits bits| = |r - ofBits other| → bits % 2 = 0) := by
    rcases Nat.lt_or_gt_of_ne hne with hlt | hgt
    · obtain ⟨below, rfl⟩ : ∃ below, bits = below + 1 := ⟨bits - 1, by omega⟩
      have hle := strictMono_ofBits.monotone (Nat.le_of_lt_succ hlt)
      have hgap := gap_pos below
      have hstep := ofBits_succ below
      rcases lt_or_ge r (ofBits (below + 1)) with hr | hr
      · obtain ⟨hhalf, heven⟩ := hdown below rfl hr
        rw [abs_of_neg (by linarith), abs_of_nonneg (by linarith)]
        exact ⟨by linarith, fun heq => heven (by linarith)⟩
      · rw [abs_of_nonneg (by linarith), abs_of_nonneg (by linarith)]
        exact ⟨by linarith, fun heq => by linarith⟩
    · have hle := strictMono_ofBits.monotone (Nat.succ_le_of_lt hgt)
      have hgap := gap_pos bits
      have hstep := ofBits_succ bits
      rcases lt_or_ge (ofBits bits) r with hr | hr
      · obtain ⟨hhalf, heven⟩ := hup hr
        rw [abs_of_pos (by linarith), abs_of_nonpos (by linarith)]
        exact ⟨by linarith, fun heq => heven (by linarith)⟩
      · rw [abs_of_nonpos (by linarith), abs_of_nonpos (by linarith)]
        exact ⟨by linarith, fun heq => by linarith⟩
  refine ⟨fun other => ?_, fun other hne => (key other hne).2⟩
  rcases eq_or_ne other bits with rfl | hne
  · exact le_rfl
  · exact (key other hne).1

/-- A number of the format is its own nearest. -/
theorem nearest_self (bits : ℕ) : Nearest (ofBits bits) bits :=
  nearest_of_gap (fun h => absurd h (lt_irrefl _)) fun _ _ h => absurd h (lt_irrefl _)

/-- **What is much nearer than the steps are long.** -/
theorem nearest_of_close {r : ℚ} {bits : ℕ}
    (h : 2 ^ 53 * (2 * |r - ofBits bits|) < ofBits bits) : Nearest r bits := by
  refine nearest_of_gap (fun hr => ?_) fun below hbelow hr => ?_
  · have hstep := ofBits_succ_le bits
    have hlt := strictMono_ofBits (Nat.lt_succ_self bits)
    rw [abs_of_pos (sub_pos.mpr hr)] at h
    exact ⟨by linarith, fun heq => by linarith⟩
  · subst hbelow
    have hstep := ofBits_succ_le below
    rw [abs_of_neg (sub_neg.mpr hr)] at h
    exact ⟨by linarith, fun heq => by linarith⟩

/-! ## Rounding ratios -/

/-- A rounded quotient is at most one half away, and even if it is so far away. -/
theorem divNearestEven_spec (num den : ℕ) (hden : 0 < den) :
    2 * |(num : ℚ) / den - divNearestEven num den| ≤ 1 ∧
      (2 * |(num : ℚ) / den - divNearestEven num den| = 1 → divNearestEven num den % 2 = 0) := by
  have hden' : (0 : ℚ) < den := by exact_mod_cast hden
  have hlt : ((num % den : ℕ) : ℚ) / den < 1 := by
    rw [div_lt_one hden']
    exact_mod_cast Nat.mod_lt num hden
  have hnonneg : (0 : ℚ) ≤ (num % den : ℕ) / den := by positivity
  have hhalf : compare (2 * (num % den)) den = compare (2 * (((num % den : ℕ) : ℚ) / den)) 1 := by
    rw [← cmp_eq_compare, ← cmp_eq_compare, ← (Nat.strictMono_cast (α := ℚ)).cmp_map_eq,
      ← cmp_mul_pos_right hden' (2 * (((num % den : ℕ) : ℚ) / den)) 1, one_mul, mul_assoc,
      div_mul_cancel₀ _ hden'.ne', Nat.cast_mul, Nat.cast_ofNat]
  rw [ratio_eq_add num hden, divNearestEven, hhalf]
  generalize ((num % den : ℕ) : ℚ) / den = rest at hlt hnonneg
  generalize num / den = q
  rcases lt_trichotomy (2 * rest) 1 with h | h | h
  · simp only [compare_lt_iff_lt.mpr h, add_sub_cancel_left, abs_of_nonneg hnonneg]
    exact ⟨h.le, fun heq => absurd heq h.ne⟩
  · simp only [compare_eq_iff_eq.mpr h]
    split_ifs with heven
    · rw [add_sub_cancel_left, abs_of_nonneg hnonneg]
      exact ⟨h.le, fun _ => heven⟩
    · have habs : |(q : ℚ) + rest - (q + 1 : ℕ)| = 1 - rest := by
        rw [abs_of_neg] <;> push_cast <;> linarith
      rw [habs]
      exact ⟨by linarith, fun _ => by omega⟩
  · have habs : |(q : ℚ) + rest - (q + 1 : ℕ)| = 1 - rest := by
      rw [abs_of_neg] <;> push_cast <;> linarith
    simp only [compare_gt_iff_gt.mpr h, habs]
    exact ⟨by linarith, fun heq => by linarith⟩

/-- The lengths of two numbers leave two exponents for their ratio. -/
theorem ratio_log2_bounds {num den : ℕ} (hnum : 0 < num) (hden : 0 < den) :
    (2 : ℚ) ^ ((num.log2 : ℤ) - den.log2 - 1) ≤ num / den ∧
      (num : ℚ) / den < 2 ^ ((num.log2 : ℤ) - den.log2 + 1) := by
  have hlog {n : ℕ} (hn : 0 < n) : (2 : ℚ) ^ (n.log2 : ℤ) ≤ n ∧ (n : ℚ) < 2 ^ (n.log2 + 1 : ℤ) := by
    have hle := Nat.log2_self_le hn.ne'
    have hlt := @Nat.lt_log2_self n
    constructor
    · rw [zpow_natCast]
      exact_mod_cast hle
    · rw [← Nat.cast_succ, zpow_natCast]
      exact_mod_cast hlt
  have hden' : (0 : ℚ) < den := by exact_mod_cast hden
  obtain ⟨hnum₁, hnum₂⟩ := hlog hnum
  obtain ⟨hden₁, hden₂⟩ := hlog hden
  constructor
  · rw [le_div_iff₀ hden']
    calc (2 : ℚ) ^ ((num.log2 : ℤ) - den.log2 - 1) * den
        ≤ 2 ^ ((num.log2 : ℤ) - den.log2 - 1) * 2 ^ (den.log2 + 1 : ℤ) :=
          mul_le_mul_of_nonneg_left hden₂.le (by positivity)
      _ = 2 ^ (num.log2 : ℤ) := by
          rw [← zpow_add₀ (by norm_num)]
          congr 1
          omega
      _ ≤ num := hnum₁
  · rw [div_lt_iff₀ hden']
    calc (num : ℚ) < 2 ^ (num.log2 + 1 : ℤ) := hnum₂
      _ = 2 ^ ((num.log2 : ℤ) - den.log2 + 1) * 2 ^ (den.log2 : ℤ) := by
          rw [← zpow_add₀ (by norm_num)]
          congr 1
          omega
      _ ≤ 2 ^ ((num.log2 : ℤ) - den.log2 + 1) * den :=
          mul_le_mul_of_nonneg_left hden₁ (by positivity)

/-- The exponent at which the significand has 53 bits, or less at the least exponent. -/
theorem exponentOf_spec {num den : ℕ} (hnum : 0 < num) (hden : 0 < den) :
    -1074 ≤ exponentOf num den ∧ (num : ℚ) / den < 2 ^ (exponentOf num den + 53) ∧
      (exponentOf num den = -1074 ∨ 2 ^ (exponentOf num den + 52) ≤ (num : ℚ) / den) := by
  obtain ⟨hlower, hupper⟩ := ratio_log2_bounds hnum hden
  obtain ⟨g, hg⟩ : ∃ g : ℤ, g = num.log2 - den.log2 := ⟨_, rfl⟩
  rw [← hg] at hlower hupper
  obtain ⟨e, he, hbounds⟩ : ∃ e, exponentOf num den = max e (-1074) ∧
      (num : ℚ) / den < 2 ^ (e + 53) ∧ 2 ^ (e + 52) ≤ (num : ℚ) / den := by
    simp only [exponentOf, ← hg, sub_add_cancel, ← zpow_le_ratio_iff Nat.two_pos hden,
      decide_eq_true_eq, Nat.cast_ofNat]
    split_ifs with h
    · refine ⟨g - 52, rfl, ?_, ?_⟩
      · rwa [show g - 52 + 53 = g + 1 by ring]
      · rwa [sub_add_cancel]
    · refine ⟨g - 53, by congr 1; ring, ?_, ?_⟩
      · rw [sub_add_cancel]
        exact not_le.mp h
      · rwa [show g - 53 + 52 = g - 1 by ring]
  rw [he]
  refine ⟨le_max_right _ _, hbounds.1.trans_le ?_, ?_⟩
  · exact zpow_le_zpow_right₀ (by norm_num) (by omega)
  · rcases max_choice e (-1074) with hmax | hmax <;> rw [hmax]
    · exact .inr hbounds.2
    · exact .inl rfl

/-- A significand that is the nearest integer gives the nearest number. -/
theorem nearest_of_significand {k m : ℕ} {y : ℚ} (hy : y < 2 ^ 53) (hk : k = 0 ∨ 2 ^ 52 ≤ y)
    (hhalf : 2 * |y - m| ≤ 1) (heven : 2 * |y - m| = 1 → m % 2 = 0) :
    Nearest (y * 2 ^ ((k : ℤ) - 1074)) (k * 2 ^ 52 + m) := by
  obtain ⟨hbelow, habove⟩ := abs_le.mp (show |y - m| ≤ 1 / 2 by linarith)
  have hm : m ≤ 2 ^ 53 := by
    have h : (m : ℚ) < (2 ^ 53 + 1 : ℕ) := by push_cast; linarith
    exact Nat.lt_succ_iff.mp (by exact_mod_cast h)
  have hk' : k = 0 ∨ 2 ^ 52 ≤ m := hk.imp_right fun h => by
    have h : ((2 ^ 52 : ℕ) : ℚ) < (m + 1 : ℕ) := by push_cast; linarith
    exact Nat.lt_succ_iff.mp (by exact_mod_cast h)
  have hpow : (0 : ℚ) < 2 ^ ((k : ℤ) - 1074) := by positivity
  -- the distance is at most half a step, if the step is that of the exponent
  have hdist : 2 * |y - m| * 2 ^ ((k : ℤ) - 1074) ≤ 2 ^ ((k : ℤ) - 1074) ∧
      (2 * |y - m| * 2 ^ ((k : ℤ) - 1074) = 2 ^ ((k : ℤ) - 1074) → (k * 2 ^ 52 + m) % 2 = 0) := by
    refine ⟨mul_le_of_le_one_left hpow.le hhalf, fun heq => ?_⟩
    have := heven ((mul_eq_right₀ hpow.ne').mp heq)
    omega
  refine nearest_of_gap (fun hr => ?_) fun below hbits hr => ?_
  · rw [ofBits_add hm hk'] at hr ⊢
    have hlt : (m : ℚ) < y := lt_of_mul_lt_mul_right hr hpow.le
    have hm' : m < 2 ^ 53 := by exact_mod_cast hlt.trans hy
    rw [abs_of_pos (sub_pos.mpr hlt), mul_assoc, sub_mul] at hdist
    rwa [gap_add hm' hk']
  · rw [ofBits_add hm hk'] at hr ⊢
    have hlt : y < m := lt_of_mul_lt_mul_right hr hpow.le
    obtain ⟨n, rfl⟩ : ∃ n, m = n + 1 := ⟨m - 1, by omega⟩
    have hn : k = 0 ∨ 2 ^ 52 ≤ n := hk.imp_right fun h => by
      have h : ((2 ^ 52 : ℕ) : ℚ) < (n + 1 : ℕ) := by push_cast at hlt ⊢; linarith
      exact Nat.lt_succ_iff.mp (by exact_mod_cast h)
    obtain rfl : below = k * 2 ^ 52 + n := by omega
    rw [abs_of_neg (sub_neg.mpr hlt), neg_sub, mul_assoc, sub_mul] at hdist
    rwa [gap_add (Nat.lt_of_succ_le hm) hn]

/-- **Rounding gives the nearest number**, and infinity if that has larger bits. -/
theorem nearest_roundBits {num den : ℕ} (hnum : 0 < num) (hden : 0 < den) :
    ∃ bits, roundBits num den = min bits infinityBits ∧ Nearest (num / den) bits := by
  obtain ⟨hleast, hupper, hlower⟩ := exponentOf_spec hnum hden
  obtain ⟨k, hk⟩ : ∃ k : ℕ, exponentOf num den = k - 1074 :=
    ⟨(exponentOf num den + 1074).toNat, by omega⟩
  have hpow : (0 : ℚ) < 2 ^ exponentOf num den := by positivity
  -- the ratio as a multiple of the step
  obtain ⟨hhalf, heven⟩ := divNearestEven_spec (num * 2 ^ (-exponentOf num den).toNat)
    (den * 2 ^ (exponentOf num den).toNat) (by positivity)
  rw [scaled_ratio, Nat.cast_ofNat] at hhalf heven
  have hshift (n : ℤ) : (2 : ℚ) ^ n * 2 ^ exponentOf num den = 2 ^ (exponentOf num den + n) := by
    rw [← zpow_add₀ (by norm_num), add_comm]
  have hnearest := nearest_of_significand (k := k) ?_ ?_ hhalf heven
  · rw [← hk, div_mul_cancel₀ _ hpow.ne'] at hnearest
    refine ⟨_, ?_, hnearest⟩
    have hfield : (exponentOf num den + 1074).toNat = k := by omega
    rw [roundBits, hfield]
  · rw [div_lt_iff₀ hpow]
    exact hupper.trans_eq (hshift 53).symm
  · refine hlower.imp (fun h => by omega) fun h => ?_
    rw [le_div_iff₀ hpow]
    exact (hshift 52).trans_le h

/-- **Rounding against the nearest number.** -/
theorem roundBits_eq_iff {num den bits : ℕ} (hnum : 0 < num) (hden : 0 < den)
    (hbits : bits < infinityBits) : roundBits num den = bits ↔ Nearest (num / den) bits := by
  obtain ⟨nearest, hround, hnearest⟩ := nearest_roundBits hnum hden
  constructor
  · intro h
    have heq : nearest = bits := by omega
    exact heq ▸ hnearest
  · intro h
    rw [hround, hnearest.unique h, min_eq_left hbits.le]

end Reckon.Binary64
