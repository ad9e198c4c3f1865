import Mathlib.Algebra.Order.Floor.Semifield
import Reckon.Proofs.Binary64.Nearest
import Reckon.Proofs.Binary64.Shortest
import Reckon.Proofs.Decimal.Quotient

/-!
# The shortest digits that read back

Digits read back as a number if the number is the nearest to them. `IsShortest bits d` says that `d`
reads back as the number with these bits, that no fewer digits do, and that of as many digits that
do none are nearer.

Between the number and any decimal with so many digits stands one of the two neighbours of the
number among the multiples of a power of ten. So if the decimal reads back, the neighbour does: it
is enough that the search looks at the neighbours. And seventeen digits always read back, since the
steps of the format are longer than those of the multiples there.

Results:
* `readsBack_iff`: what the search tests.
* `exists_neighbour`: a neighbour between the number and a decimal.
* `readsBack_last`: seventeen digits read back.
* `search_found`: what the search ends with.
* `isShortest_shortest`: the search finds the shortest digits.
* `shortest_stripped_range`: how many they are and how far they reach.
-/

namespace Reckon.Binary64

/-- The number that the digits stand for. -/
def Digits.value (d : Digits) : ℚ := d.coefficient * 10 ^ d.exponent

/-- The same number without zeros at the end of the coefficient. -/
def Digits.stripped (d : Digits) : Digits :=
  ⟨d.coefficient / 10 ^ Decimal.trailingZeros d.coefficient,
    d.exponent + Decimal.trailingZeros d.coefficient⟩

theorem Digits.value_stripped (d : Digits) : d.stripped.value = d.value := by
  obtain ⟨c, hc⟩ := Decimal.pow_trailingZeros_dvd d.coefficient
  have hdiv : d.coefficient / 10 ^ Decimal.trailingZeros d.coefficient = c :=
    Nat.div_eq_of_eq_mul_right (by positivity) hc
  unfold value stripped
  simp only
  rw [hdiv, zpow_add₀ (by norm_num), zpow_natCast]
  conv_rhs => rw [hc]
  push_cast
  ring

/-- The last digit that is left is not zero. -/
theorem Digits.stripped_mod {d : Digits} (h : 0 < d.coefficient) :
    d.stripped.coefficient % 10 ≠ 0 := by
  intro hmod
  have hpos : 0 < d.stripped.coefficient :=
    Nat.div_pos (Nat.le_of_dvd h (Decimal.pow_trailingZeros_dvd _)) (by positivity)
  have hle := Decimal.le_trailingZeros hpos.ne' (pow_one 10 ▸ Nat.dvd_of_mod_eq_zero hmod)
  have hzero : Decimal.trailingZeros d.stripped.coefficient = 0 := Decimal.trailingZeros_div h.ne'
  omega

theorem Digits.num_div_den (d : Digits) : (d.num : ℚ) / d.den = d.value := by
  rw [num, den, value, zpow_eq_div]
  push_cast
  ring

/-- What the search tests. -/
theorem readsBack_iff {bits : ℕ} {d : Digits} (hd : 0 < d.coefficient)
    (hbits : bits < infinityBits) : readsBack bits d = true ↔ Nearest d.value bits := by
  have hnum : 0 < d.num := Nat.mul_pos hd (by positivity)
  have hden : 0 < d.den := Nat.pow_pos (by decide)
  rw [readsBack, decide_eq_true_iff, roundBits_eq_iff hnum hden hbits, d.num_div_den]

/-- The digits read back as the magnitude with these bits, no fewer digits do, and of as many digits
that do none are nearer. -/
structure IsShortest (bits : ℕ) (d : Digits) : Prop where
  readsBack : Nearest d.value bits
  fewest : ∀ e : Digits, Nearest e.value bits → numDigits d.coefficient ≤ numDigits e.coefficient
  closest : ∀ e : Digits, Nearest e.value bits → numDigits e.coefficient ≤ numDigits d.coefficient →
    |d.value - ofBits bits| ≤ |e.value - ofBits bits|

/-- The decimal below a ratio on the grid of multiples of `10 ^ place`. -/
def below (num den : ℕ) (place : ℤ) : Digits :=
  ⟨num * 10 ^ (-place).toNat / (den * 10 ^ place.toNat), place⟩

/-- The decimal above a ratio on the grid of multiples of `10 ^ place`. -/
def above (num den : ℕ) (place : ℤ) : Digits := ⟨(below num den place).coefficient + 1, place⟩

theorem value_below (num den : ℕ) (place : ℤ) :
    (below num den place).value = (below num den place).coefficient * 10 ^ place := rfl

theorem value_above (num den : ℕ) (place : ℤ) :
    (above num den place).value = (below num den place).value + 10 ^ place := by
  rw [value_below, Digits.value, above]
  push_cast
  ring

/-- The neighbours are the decimal below and the decimal above. -/
theorem neighbour_iff {num den : ℕ} {d : Digits} :
    Neighbour num den d ↔ d = below num den d.exponent ∨ d = above num den d.exponent := by
  obtain ⟨coefficient, place⟩ := d
  simp only [above, below, Digits.mk.injEq, and_true]
  constructor
  · rintro ⟨hlower, hupper⟩
    simp only at hlower hupper
    omega
  · rintro (h | h) <;> exact ⟨by simp only; omega, by simp only; omega⟩

section Ratio

variable {num den : ℕ}

/-! ## The first digit -/

/-- The first digit stands at the place of the largest power of ten that is not greater. -/
theorem firstPlace_spec (hnum : 0 < num) (hden : 0 < den) :
    (10 : ℚ) ^ firstPlace num den ≤ num / den ∧
      (num : ℚ) / den < 10 ^ (firstPlace num den + 1) := by
  constructor
  · have h := (zpow_le_ratio_iff (b := 10) (by decide) hden num _).mpr
      (pow_firstPlace_le hnum hden le_rfl)
    exact_mod_cast h
  · have hden' : (0 : ℚ) < den := by exact_mod_cast hden
    rw [div_lt_iff₀ hden']
    unfold firstPlace
    split_ifs with hle
    · have hlt := (Decimal.numDigits_bounds (Nat.div_pos hle hden)).2
      rw [Nat.div_lt_iff_lt_mul hden] at hlt
      rw [sub_add_cancel, zpow_natCast]
      exact_mod_cast hlt
    · have hq : 0 < (den - 1) / num := Nat.div_pos (by omega) hnum
      have hle := (Decimal.numDigits_bounds hq).1
      have hpos := numDigits_pos ((den - 1) / num)
      rw [Nat.le_div_iff_mul_le hnum] at hle
      have hlt : 10 ^ (numDigits ((den - 1) / num) - 1) * num < den := by omega
      have hexponent : -(numDigits ((den - 1) / num) : ℤ) + 1 =
          -(numDigits ((den - 1) / num) - 1 : ℕ) := by omega
      rw [hexponent, zpow_neg, zpow_natCast, ← div_eq_inv_mul, lt_div_iff₀ (by positivity), mul_comm]
      exact_mod_cast hlt

/-! ## Neighbours -/

/-- The ratio stands between its neighbours. -/
theorem below_le (num den : ℕ) (place : ℤ) : (below num den place).value ≤ num / den := by
  have hpow : (0 : ℚ) < 10 ^ place := by positivity
  have h := scaled_ratio 10 num den place
  rw [Nat.cast_ofNat] at h
  rw [value_below, ← le_div_iff₀ hpow, ← h, below, ← Nat.floor_div_eq_div (K := ℚ)]
  exact Nat.floor_le (by positivity)

theorem lt_above (num den : ℕ) (place : ℤ) : (num : ℚ) / den < (above num den place).value := by
  have hpow : (0 : ℚ) < 10 ^ place := by positivity
  have h := scaled_ratio 10 num den place
  rw [Nat.cast_ofNat] at h
  rw [value_above, value_below, ← add_one_mul, ← div_lt_iff₀ hpow, ← h, below,
    ← Nat.floor_div_eq_div (K := ℚ)]
  exact Nat.lt_floor_add_one _

/-- Which neighbour comes first. -/
theorem neighbours_cases (num : ℕ) (hden : 0 < den) (place : ℤ) :
    neighbours num den place = (below num den place, above num den place) ∧
        2 * (num / den - (below num den place).value) < 10 ^ place ∨
      neighbours num den place = (above num den place, below num den place) ∧
        10 ^ place ≤ 2 * (num / den - (below num den place).value) := by
  have hpow : (0 : ℚ) < 10 ^ place := by positivity
  have hden₁ : 0 < den * 10 ^ place.toNat := by positivity
  have hden₂ : (0 : ℚ) < (den * 10 ^ place.toNat : ℕ) := by exact_mod_cast hden₁
  -- the distance is the rest of the division
  have hrest : (num : ℚ) / den - (below num den place).value =
      ((num * 10 ^ (-place).toNat % (den * 10 ^ place.toNat) : ℕ) : ℚ) /
        (den * 10 ^ place.toNat : ℕ) * 10 ^ place := by
    have h := scaled_ratio 10 num den place
    rw [Nat.cast_ofNat, ratio_eq_add _ hden₁, eq_div_iff hpow.ne', add_mul] at h
    rw [← h, Digits.value, below, add_sub_cancel_left]
  have hiff : 2 * (num / den - (below num den place).value) < 10 ^ place ↔
      2 * (num * 10 ^ (-place).toNat % (den * 10 ^ place.toNat)) < den * 10 ^ place.toNat := by
    rw [hrest, ← mul_assoc, mul_lt_iff_lt_one_left hpow, ← mul_div_assoc, div_lt_one hden₂]
    exact_mod_cast Iff.rfl
  by_cases h : 2 * (num / den - (below num den place).value) < 10 ^ place
  · exact .inl ⟨if_pos (hiff.mp h), h⟩
  · exact .inr ⟨if_neg (mt hiff.mpr h), not_lt.mp h⟩

/-- The first neighbour is the nearer one, and at most half a step of the grid away. -/
theorem neighbours_nearer (num : ℕ) (hden : 0 < den) (place : ℤ) :
    |(neighbours num den place).1.value - num / den| ≤
        |(neighbours num den place).2.value - num / den| ∧
      2 * |(neighbours num den place).1.value - num / den| ≤ 10 ^ place := by
  have hbelow := below_le num den place
  have habove := lt_above num den place
  have hstep := value_above num den place
  have habs : |(below num den place).value - num / den| = num / den - (below num den place).value :=
    by rw [abs_sub_comm, abs_of_nonneg (by linarith)]
  have habs' : |(above num den place).value - num / den| = (above num den place).value - num / den :=
    abs_of_pos (by linarith)
  rcases neighbours_cases num hden place with ⟨heq, h⟩ | ⟨heq, h⟩ <;> rw [heq, habs, habs'] <;>
    constructor <;> linarith

/-- A decimal on the grid is not between the neighbours. -/
theorem outside_of_le {place : ℤ} {e : Digits} (h : place ≤ e.exponent) :
    e.value ≤ (below num den place).value ∨ (above num den place).value ≤ e.value := by
  have hpow : (0 : ℚ) < 10 ^ place := by positivity
  obtain ⟨k, hk⟩ : ∃ k : ℕ, e.exponent = k + place := ⟨(e.exponent - place).toNat, by omega⟩
  have hvalue : e.value = (e.coefficient * 10 ^ k : ℕ) * 10 ^ place := by
    rw [Digits.value, hk, zpow_add₀ (by norm_num), zpow_natCast]
    push_cast
    ring
  rw [value_above, value_below, ← add_one_mul, hvalue]
  rcases Nat.lt_or_ge (below num den place).coefficient (e.coefficient * 10 ^ k) with h | h
  · right
    exact mul_le_mul_of_nonneg_right (by exact_mod_cast h) hpow.le
  · left
    exact mul_le_mul_of_nonneg_right (by exact_mod_cast h) hpow.le

/-- A decimal with digits behind the grid, but with no more digits than the grid leaves room for, is
less than the power of ten at the first place. -/
theorem value_le_below (hnum : 0 < num) (hden : 0 < den) {count : ℕ} {e : Digits}
    (he : numDigits e.coefficient ≤ count) (h : e.exponent < firstPlace num den + 1 - count) :
    e.value ≤ (below num den (firstPlace num den + 1 - count)).value := by
  obtain ⟨place, hplace⟩ : ∃ place, place = firstPlace num den + 1 - count := ⟨_, rfl⟩
  rw [← hplace] at h ⊢
  have hpow : (0 : ℚ) < 10 ^ place := by positivity
  have hcount : 0 < count := (numDigits_pos _).trans_le he
  have hcoefficient : (e.coefficient : ℚ) ≤ 10 ^ (count : ℤ) := by
    rw [zpow_natCast]
    exact_mod_cast ((numDigits_le_iff hcount).mp he).le
  have hfirst : (10 : ℚ) ^ firstPlace num den = (10 ^ (count - 1) : ℕ) * 10 ^ place := by
    push_cast
    rw [← zpow_natCast, ← zpow_add₀ (by norm_num)]
    congr 1
    omega
  have hle : 10 ^ (count - 1) ≤ (below num den place).coefficient := by
    have h := (firstPlace_spec hnum hden).1.trans_lt (lt_above num den place)
    rw [value_above, value_below, ← add_one_mul, hfirst] at h
    exact Nat.lt_succ_iff.mp (by exact_mod_cast lt_of_mul_lt_mul_right h hpow.le)
  calc e.value ≤ 10 ^ (count : ℤ) * 10 ^ (place - 1) :=
        mul_le_mul hcoefficient (zpow_le_zpow_right₀ (by norm_num) (by omega)) (by positivity)
          (by positivity)
    _ = 10 ^ firstPlace num den := by
        rw [← zpow_add₀ (by norm_num)]
        congr 1
        omega
    _ ≤ (below num den place).coefficient * 10 ^ place := by
        rw [hfirst]
        exact mul_le_mul_of_nonneg_right (by exact_mod_cast hle) hpow.le

/-- **Between a ratio and a decimal stands a neighbour of the ratio**, at every place that leaves
room for as many digits as the decimal has. -/
theorem exists_neighbour (hnum : 0 < num) (hden : 0 < den) {count : ℕ} {e : Digits}
    (he : numDigits e.coefficient ≤ count) :
    ∃ d, Neighbour num den d ∧ d.exponent = firstPlace num den + 1 - count ∧
      (e.value ≤ d.value ∧ d.value ≤ num / den ∨ num / den ≤ d.value ∧ d.value ≤ e.value) := by
  have houtside : e.value ≤ (below num den (firstPlace num den + 1 - count)).value ∨
      (above num den (firstPlace num den + 1 - count)).value ≤ e.value := by
    rcases lt_or_ge e.exponent (firstPlace num den + 1 - count) with hlt | hge
    · exact .inl (value_le_below hnum hden he hlt)
    · exact outside_of_le hge
  rcases houtside with h | h
  · exact ⟨_, neighbour_iff.mpr (.inl rfl), rfl, .inl ⟨h, below_le num den _⟩⟩
  · exact ⟨_, neighbour_iff.mpr (.inr rfl), rfl, .inr ⟨(lt_above num den _).le, h⟩⟩

/-! ## The search -/

/-- What a search from `count` digits on ends with: a neighbour of `n` digits that reads back, where
no neighbour of fewer digits does and of those with as many none that is nearer. -/
structure Found (bits num den count n : ℕ) (d : Digits) : Prop where
  neighbour : Neighbour num den d
  place : d.exponent = firstPlace num den + 1 - n
  reads : readsBack bits d = true
  skipped : ∀ k e, count ≤ k → k < n → Neighbour num den e →
    e.exponent = firstPlace num den + 1 - k → readsBack bits e = false
  closest : ∀ e, Neighbour num den e → e.exponent = d.exponent → readsBack bits e = true →
    |d.value - num / den| ≤ |e.value - num / den|

/-- The search looks at every neighbour. -/
theorem Neighbour.mem {d : Digits} (hden : 0 < den) (h : Neighbour num den d) :
    d = (neighbours num den d.exponent).1 ∨ d = (neighbours num den d.exponent).2 := by
  rcases neighbours_cases num hden d.exponent with ⟨heq, -⟩ | ⟨heq, -⟩ <;> rw [heq]
  · exact neighbour_iff.mp h
  · exact (neighbour_iff.mp h).symm

/-- A neighbour that reads back, if no nearer one does. -/
theorem Found.here {bits count : ℕ} {d : Digits} (hd : Neighbour num den d)
    (hplace : d.exponent = firstPlace num den + 1 - count) (hreads : readsBack bits d = true)
    (hclosest : ∀ e, Neighbour num den e → e.exponent = d.exponent → readsBack bits e = true →
      |d.value - num / den| ≤ |e.value - num / den|) : Found bits num den count count d where
  neighbour := hd
  place := hplace
  reads := hreads
  skipped := fun _ _ hk hk' => absurd hk (not_le.mpr hk')
  closest := hclosest

/-- One more place with neighbours that do not read back. -/
theorem Found.skip {bits count n : ℕ} {d : Digits} (hden : 0 < den)
    (h : Found bits num den (count + 1) n d)
    (hnearer : ¬readsBack bits (neighbours num den (firstPlace num den + 1 - count)).1 = true)
    (hfarther : ¬readsBack bits (neighbours num den (firstPlace num den + 1 - count)).2 = true) :
    Found bits num den count n d where
  neighbour := h.neighbour
  place := h.place
  reads := h.reads
  skipped := by
    intro k e hk hkn he hplace
    rcases Nat.lt_or_eq_of_le hk with hlt | rfl
    · exact h.skipped k e hlt hkn he hplace
    · rw [Bool.eq_false_iff]
      rcases he.mem hden with heq | heq <;> rw [hplace] at heq <;> rw [heq]
      · exact hnearer
      · exact hfarther
  closest := h.closest

/-- **The search ends with a neighbour that reads back**, if the one that it takes unseen does. -/
theorem search_found (hden : 0 < den) {bits count rest : ℕ}
    (hlast : readsBack bits
      (neighbours num den (firstPlace num den + 1 - (count + rest : ℕ))).1 = true) :
    ∃ n, count ≤ n ∧ n ≤ count + rest ∧
      Found bits num den count n (search bits num den (firstPlace num den) count rest) := by
  have hnearer {count : ℕ}
      (h : readsBack bits (neighbours num den (firstPlace num den + 1 - count)).1 = true) :
      Found bits num den count count (neighbours num den (firstPlace num den + 1 - count)).1 := by
    obtain ⟨⟨hneighbour, hplace⟩, -⟩ := neighbours_spec num den (firstPlace num den + 1 - count)
    refine .here hneighbour hplace h fun e he heq _ => ?_
    rw [hplace] at heq
    have hle := (neighbours_nearer num hden (firstPlace num den + 1 - count)).1
    rcases he.mem hden with hmem | hmem <;> rw [heq] at hmem <;> rw [hmem]
    exact hle
  induction rest generalizing count with
  | zero => exact ⟨count, le_rfl, le_rfl, hnearer hlast⟩
  | succ rest ih =>
    simp only [search]
    split_ifs with h₁ h₂
    · exact ⟨count, le_rfl, by omega, hnearer h₁⟩
    · obtain ⟨-, hneighbour, hplace⟩ := neighbours_spec num den (firstPlace num den + 1 - count)
      refine ⟨count, le_rfl, by omega, .here hneighbour hplace h₂ fun e he heq hreads => ?_⟩
      rw [hplace] at heq
      rcases he.mem hden with hmem | hmem <;> rw [heq] at hmem
      · exact absurd (hmem ▸ hreads) h₁
      · rw [hmem]
    · rw [show count + (rest + 1) = count + 1 + rest by omega] at hlast
      obtain ⟨n, hle, hle', hfound⟩ := ih hlast
      exact ⟨n, by omega, by omega, hfound.skip hden h₁ h₂⟩

/-! ## The shortest digits -/

/-- **Seventeen digits read back**: the steps of the format are longer than the grid is wide. -/
theorem readsBack_last {bits : ℕ} (hnum : 0 < num) (hden : 0 < den) (hbits : bits < infinityBits)
    (hratio : (num : ℚ) / den = ofBits bits) :
    readsBack bits (neighbours num den (firstPlace num den + 1 - (1 + 16 : ℕ))).1 = true := by
  obtain ⟨place, hplace⟩ : ∃ place, place = firstPlace num den + 1 - (1 + 16 : ℕ) := ⟨_, rfl⟩
  obtain ⟨⟨hneighbour, hexponent⟩, -⟩ := neighbours_spec num den place
  have hnear := (neighbours_nearer num hden place).2
  have hpow : (0 : ℚ) < 10 ^ place := by positivity
  have hfirst : (10 : ℚ) ^ 16 * 10 ^ place ≤ ofBits bits := by
    rw [← zpow_natCast, ← zpow_add₀ (by norm_num), ← hratio]
    refine le_trans (le_of_eq ?_) (firstPlace_spec hnum hden).1
    congr 1
    omega
  rw [← hplace, readsBack_iff (hneighbour.pos hnum hden (by omega)) hbits]
  rw [hratio] at hnear
  refine nearest_of_close ?_
  calc (2 : ℚ) ^ 53 * (2 * |(neighbours num den place).1.value - ofBits bits|)
      ≤ 2 ^ 53 * 10 ^ place := mul_le_mul_of_nonneg_left hnear (by positivity)
    _ < 10 ^ 16 * 10 ^ place := mul_lt_mul_of_pos_right (by norm_num) hpow
    _ ≤ ofBits bits := hfirst

/-- Without its trailing zeros a number up to `10 ^ n` has at most `n` digits. -/
theorem numDigits_stripped {c n : ℕ} (hn : 0 < n) (hc : c ≤ 10 ^ n) :
    numDigits (c / 10 ^ Decimal.trailingZeros c) ≤ n := by
  rw [numDigits_le_iff hn]
  rcases Nat.lt_or_eq_of_le hc with hlt | rfl
  · exact (Nat.div_le_self _ _).trans_lt hlt
  · have hzeros := Decimal.le_trailingZeros (Nat.pow_pos (by decide) : 0 < 10 ^ n).ne' dvd_rfl
    have hle := Nat.div_le_div_left (Nat.pow_le_pow_right (by decide : 0 < 10) hzeros)
      (Nat.pow_pos (by decide)) (a := 10 ^ n)
    rw [Nat.div_self (Nat.pow_pos (by decide))] at hle
    exact hle.trans_lt (Nat.one_lt_pow hn.ne' (by decide))

/-- The digits that are found are no more than those of the grid. -/
theorem Found.numDigits_stripped_le {bits count n : ℕ} {d : Digits} (hnum : 0 < num)
    (hden : 0 < den) (hn : 0 < n) (h : Found bits num den count n d) :
    numDigits d.stripped.coefficient ≤ n := by
  have hpow : (0 : ℚ) < 10 ^ d.exponent := by positivity
  have hlt : (below num den d.exponent).value < 10 ^ n * 10 ^ d.exponent := by
    calc (below num den d.exponent).value ≤ num / den := below_le num den d.exponent
      _ < 10 ^ (firstPlace num den + 1) := (firstPlace_spec hnum hden).2
      _ = 10 ^ n * 10 ^ d.exponent := by
          rw [← zpow_natCast, ← zpow_add₀ (by norm_num), h.place]
          congr 1
          omega
  rw [value_below] at hlt
  have hbelow : (below num den d.exponent).coefficient < 10 ^ n := by
    exact_mod_cast lt_of_mul_lt_mul_right hlt hpow.le
  exact numDigits_stripped hn (h.neighbour.upper.trans hbelow)

/-- **What the search from one digit on finds are the shortest digits.** -/
theorem Found.isShortest {bits n : ℕ} {d : Digits} (hnum : 0 < num) (hden : 0 < den) (hn : 0 < n)
    (hbits : bits < infinityBits) (hratio : (num : ℚ) / den = ofBits bits)
    (h : Found bits num den 1 n d) : IsShortest bits d.stripped := by
  -- a neighbour that stands between the number and digits that read back
  have hneighbour {count : ℕ} {e : Digits} (he : Nearest e.value bits)
      (hcount : numDigits e.coefficient ≤ count) :
      ∃ d', Neighbour num den d' ∧ d'.exponent = firstPlace num den + 1 - count ∧
        readsBack bits d' = true ∧ |d'.value - ofBits bits| ≤ |e.value - ofBits bits| := by
    have hpos := numDigits_pos e.coefficient
    obtain ⟨d', hd', hplace, hbetween⟩ := exists_neighbour hnum hden hcount
    rw [hratio] at hbetween
    refine ⟨d', hd', hplace, ?_, ?_⟩
    · rw [readsBack_iff (hd'.pos hnum hden (by omega)) hbits]
      exact he.between hbetween
    · rcases hbetween with ⟨h₁, h₂⟩ | ⟨h₁, h₂⟩
      · exact abs_le_abs_of_nonpos (by linarith) (by linarith)
      · exact abs_le_abs_of_nonneg (by linarith) (by linarith)
  have hdigits := h.numDigits_stripped_le hnum hden hn
  have hplace := h.place
  refine ⟨?_, fun e he => hdigits.trans ?_, fun e he hle => ?_⟩
  · rw [d.value_stripped]
    exact (readsBack_iff (h.neighbour.pos hnum hden (by omega)) hbits).mp h.reads
  · by_contra hlt
    obtain ⟨d', hd', hplace', hreads, -⟩ := hneighbour he le_rfl
    have hskipped := h.skipped _ d' (numDigits_pos e.coefficient) (not_le.mp hlt) hd' hplace'
    rw [hreads] at hskipped
    exact Bool.noConfusion hskipped
  · obtain ⟨d', hd', hplace', hreads, hnearer⟩ := hneighbour he (hle.trans hdigits)
    have hclosest := h.closest d' hd' (hplace'.trans hplace.symm) hreads
    rw [hratio] at hclosest
    rw [d.value_stripped]
    exact hclosest.trans hnearer

end Ratio

section Shortest

variable {x : Binary64}

/-- The terms of the ratio that the digits are searched for. -/
theorem ratio_eq_ofBits (x : Binary64) :
    ((x.significand * 2 ^ x.exponent.toNat : ℕ) : ℚ) / (2 ^ (-x.exponent).toNat : ℕ) =
      ofBits x.magnitude := by
  rw [← significand_mul_zpow, zpow_eq_div]
  push_cast
  ring

/-- The search for the shortest digits ends with what reads back. -/
theorem shortest_found (hx : x.magnitude < infinityBits) (h0 : x.magnitude ≠ 0) :
    ∃ n, 1 ≤ n ∧ n ≤ 17 ∧ Found x.magnitude (x.significand * 2 ^ x.exponent.toNat)
      (2 ^ (-x.exponent).toNat) 1 n x.shortest := by
  have hnum := significand_mul_pos h0
  have hden : 0 < 2 ^ (-x.exponent).toNat := by positivity
  exact search_found hden (readsBack_last hnum hden hx (ratio_eq_ofBits x))

/-- **The shortest digits.** They read back, no fewer do, and none of as many are nearer. -/
theorem isShortest_shortest (hx : x.magnitude < infinityBits) (h0 : x.magnitude ≠ 0) :
    IsShortest x.magnitude x.shortest.stripped := by
  obtain ⟨n, hn, -, h⟩ := shortest_found hx h0
  exact h.isShortest (significand_mul_pos h0) (by positivity) hn hx (ratio_eq_ofBits x)

/-- The shortest digits of zero. -/
theorem isShortest_zero : IsShortest 0 ⟨0, 0⟩ := by
  have hvalue : (⟨0, 0⟩ : Digits).value = ofBits 0 := by
    rw [ofBits_zero, Digits.value, Nat.cast_zero, zero_mul]
  refine ⟨hvalue ▸ nearest_self 0, fun e _ => numDigits_pos e.coefficient, fun e _ _ => ?_⟩
  rw [hvalue, sub_self, abs_zero]
  exact abs_nonneg _

/-- The shortest digits are seventeen at most, and the last one stands at most 400 places behind the
point. -/
theorem shortest_stripped_range (hx : x.magnitude < infinityBits) (h0 : x.magnitude ≠ 0) :
    numDigits x.shortest.stripped.coefficient ≤ 17 ∧ -400 ≤ x.shortest.stripped.exponent := by
  have hnum := significand_mul_pos h0
  have hden : 0 < 2 ^ (-x.exponent).toNat := by positivity
  obtain ⟨n, hn, hle, h⟩ := shortest_found hx h0
  refine ⟨(h.numDigits_stripped_le hnum hden hn).trans hle, ?_⟩
  -- the least number is `8 ^ (-358)`
  have hlt : (10 : ℚ) ^ (-358 : ℤ) <
      10 ^ (firstPlace (x.significand * 2 ^ x.exponent.toNat) (2 ^ (-x.exponent).toNat) + 1) := by
    calc (10 : ℚ) ^ (-358 : ℤ) < 8 ^ (-358 : ℤ) := by
          rw [zpow_neg, zpow_neg, inv_lt_inv₀ (by positivity) (by positivity)]
          exact zpow_lt_zpow_left₀ (by norm_num) (by norm_num) (by norm_num)
      _ = ofBits 1 := by
          rw [ofBits, gap, show (8 : ℚ) = 2 ^ (3 : ℤ) by norm_num, ← zpow_mul]
          norm_num
      _ ≤ ofBits x.magnitude := strictMono_ofBits.monotone (Nat.one_le_iff_ne_zero.mpr h0)
      _ < _ := ratio_eq_ofBits x ▸ (firstPlace_spec hnum hden).2
  have hfirst := (zpow_lt_zpow_iff_right₀ (by norm_num)).mp hlt
  have hplace := h.place
  simp only [Digits.stripped]
  omega

end Shortest

end Reckon.Binary64
