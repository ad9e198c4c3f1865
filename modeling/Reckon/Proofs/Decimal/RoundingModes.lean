import Reckon.Proofs.Decimal.Rescale
import Reckon.Proofs.Decimal.Rounding

/-!
# The rounding modes

`Prescribes` says what a mode makes of a number, without reference to the digits that are kept and
dropped: the three modes that round a half take the nearest integer and differ only where two
integers are as near, the others take the next integer on one side. A mode prescribes one integer
for each number. Bringing a decimal to a scale that is not larger than its own gives that integer
for the number of units of the scale; bringing it to a larger one only appends zeros.

Results:
* `prescribes_iff`: the integer that a mode prescribes is the one that `round` gives.
* `roundToScale_correct`: what `roundToScale` gives, and what follows for rounding to an integer.
-/

namespace Reckon

namespace RoundingMode

/-- What the mode makes of a number. -/
def Prescribes (mode : RoundingMode) (q : ℚ) (n : ℤ) : Prop :=
  match mode with
  | up => n = if 0 ≤ q then ⌈q⌉ else ⌊q⌋
  | down => n = if 0 ≤ q then ⌊q⌋ else ⌈q⌉
  | ceiling => n = ⌈q⌉
  | floor => n = ⌊q⌋
  | halfUp => |q - n| ≤ 1 / 2 ∧ (|q - n| = 1 / 2 → |q| < |(n : ℚ)|)
  | halfDown => |q - n| ≤ 1 / 2 ∧ (|q - n| = 1 / 2 → |(n : ℚ)| < |q|)
  | halfEven => |q - n| ≤ 1 / 2 ∧ (|q - n| = 1 / 2 → Even n)

/-- The mode rounds to the nearest integer. -/
def Nearest (mode : RoundingMode) : Prop := mode = halfUp ∨ mode = halfDown ∨ mode = halfEven

variable {mode : RoundingMode} {q : ℚ} {m n : ℤ}

/-! ## Uniqueness -/

theorem Prescribes.abs_sub_le (h : mode.Prescribes q n) (hm : mode.Nearest) : |q - n| ≤ 1 / 2 := by
  rcases hm with rfl | rfl | rfl <;> exact h.1

theorem Prescribes.abs_sub_lt (h : mode.Prescribes q n) : |q - n| < 1 := by
  have hfloor := Int.floor_le q
  have hlt := Int.lt_floor_add_one q
  have hceil := Int.le_ceil q
  have hceil_lt := Int.ceil_lt_add_one q
  cases mode with
  | up | down =>
    obtain rfl : n = _ := h
    split_ifs <;> exact abs_lt.mpr ⟨by linarith, by linarith⟩
  | ceiling | floor =>
    obtain rfl : n = _ := h
    exact abs_lt.mpr ⟨by linarith, by linarith⟩
  | halfUp | halfDown | halfEven => exact h.1.trans_lt (by norm_num)

/-- Only where a number stands halfway between two integers are both as near. -/
theorem eq_or_halfway (hm : |q - m| ≤ 1 / 2) (hn : |q - n| ≤ 1 / 2) (hle : m ≤ n) :
    m = n ∨ (n = m + 1 ∧ q = m + 1 / 2) := by
  obtain ⟨hm₁, hm₂⟩ := abs_le.mp hm
  obtain ⟨hn₁, hn₂⟩ := abs_le.mp hn
  have hnm : n ≤ m + 1 := by
    have : (n : ℚ) ≤ m + 1 := by linarith
    exact_mod_cast this
  rcases hle.eq_or_lt with h | h
  · exact .inl h
  · obtain rfl : n = m + 1 := le_antisymm hnm h
    push_cast at hn₁ hn₂
    exact .inr ⟨rfl, by linarith⟩

/-- Of two integers that a number stands halfway between, a mode takes one. -/
theorem not_prescribes_both (hmode : mode.Nearest) (h : mode.Prescribes (m + 1 / 2) m)
    (h' : mode.Prescribes (m + 1 / 2) (m + 1 : ℤ)) : False := by
  have htie : |(m : ℚ) + 1 / 2 - m| = 1 / 2 := by
    rw [add_sub_cancel_left]
    norm_num
  have htie' : |(m : ℚ) + 1 / 2 - (m + 1 : ℤ)| = 1 / 2 := by
    push_cast
    rw [add_sub_add_left_eq_sub]
    norm_num
  rcases hmode with rfl | rfl | rfl
  · -- the one farther from zero lies on one side only
    have hm := sq_lt_sq.mpr (h.2 htie)
    have hm' := sq_lt_sq.mpr (h'.2 htie')
    push_cast at hm'
    have hlow : (-1 : ℚ) < m := by linarith
    have hhigh : (m : ℚ) < 0 := by linarith
    have : -1 < m := by exact_mod_cast hlow
    have : m < 0 := by exact_mod_cast hhigh
    omega
  · have hm := sq_lt_sq.mpr (h.2 htie)
    have hm' := sq_lt_sq.mpr (h'.2 htie')
    push_cast at hm'
    linarith
  · exact Int.even_add_one.mp (h'.2 htie') (h.2 htie)

/-- **A mode prescribes one integer at most.** -/
theorem Prescribes.unique (hm : mode.Prescribes q m) (hn : mode.Prescribes q n) : m = n := by
  by_cases hmode : mode.Nearest
  · rcases le_total m n with hle | hle
    · obtain h | ⟨rfl, rfl⟩ := eq_or_halfway (hm.abs_sub_le hmode) (hn.abs_sub_le hmode) hle
      · exact h
      · exact (not_prescribes_both hmode hm hn).elim
    · obtain h | ⟨rfl, rfl⟩ := eq_or_halfway (hn.abs_sub_le hmode) (hm.abs_sub_le hmode) hle
      · exact h.symm
      · exact (not_prescribes_both hmode hn hm).elim
  · cases mode with
    | halfUp | halfDown | halfEven => exact absurd (by simp [Nearest]) hmode
    | _ => exact Eq.trans hm (Eq.symm hn)

/-! ## What is prescribed is given -/

theorem Prescribes.neg (hmode : mode.Nearest) (h : mode.Prescribes q n) :
    mode.Prescribes (-q) (-n) := by
  have hdist : |-q - (-n : ℤ)| = |q - n| := by
    push_cast
    rw [← neg_sub', abs_neg]
  have habs : |((-n : ℤ) : ℚ)| = |(n : ℚ)| := by rw [Int.cast_neg, abs_neg]
  rcases hmode with rfl | rfl | rfl
  · rwa [Prescribes, hdist, habs, abs_neg]
  · rwa [Prescribes, hdist, habs, abs_neg]
  · rwa [Prescribes, hdist, even_neg]

theorem Nearest.opposite (h : mode.Nearest) : mode.opposite = mode := by
  rcases h with rfl | rfl | rfl <;> rfl

/-- The mode `floor` gives the largest integer that is not greater. -/
theorem round_floor (q : ℚ) : RoundingMode.floor.round q = ⌊q⌋ := by
  have h := round_neg .ceiling q
  rw [round_ceiling, Int.ceil_neg, neg_inj] at h
  exact h.symm

/-- The mode `up` goes away from zero. -/
theorem round_up (q : ℚ) : RoundingMode.up.round q = if 0 ≤ q then ⌈q⌉ else ⌊q⌋ := by
  split_ifs with hq
  · rw [← round_ceiling, round, round, decide_eq_false (not_lt.mpr hq)]
    rfl
  · rw [← round_floor, round, round, decide_eq_true (not_le.mp hq)]
    rfl

/-- A nonnegative number is rounded to one of the integers next to it. -/
theorem round_of_nonneg (mode : RoundingMode) (hq : 0 ≤ q) :
    mode.round q = if q - ⌊q⌋₊ ≠ 0 ∧ mode.raises false ⌊q⌋₊ (compare (2 * (q - ⌊q⌋₊)) 1) then
      (⌊q⌋₊ : ℤ) + 1 else ⌊q⌋₊ := by
  rw [round, decide_eq_false (not_lt.mpr hq), abs_of_nonneg hq, Decimal.signed, magnitude]
  split_ifs <;> simp_all

theorem prescribes_of_lt (hmode : mode.Nearest) (h : |q - n| < 1 / 2) : mode.Prescribes q n := by
  rcases hmode with rfl | rfl | rfl <;> exact ⟨h.le, fun htie => absurd htie h.ne⟩

/-- A nonnegative number is rounded to the nearest integer, a half as the mode says. -/
theorem prescribes_of_nonneg (hmode : mode.Nearest) (hq : 0 ≤ q) :
    mode.Prescribes q (mode.round q) := by
  have hle := Nat.floor_le hq
  have hlower : |q - (⌊q⌋₊ : ℤ)| = q - ⌊q⌋₊ := by
    rw [Int.cast_natCast, abs_of_nonneg (by linarith)]
  have hupper : |q - ((⌊q⌋₊ : ℤ) + 1 : ℤ)| = 1 - (q - ⌊q⌋₊) := by
    push_cast
    rw [abs_of_nonpos (by linarith [Nat.lt_floor_add_one q])]
    ring
  rw [round_of_nonneg mode hq]
  rcases lt_trichotomy (2 * (q - ⌊q⌋₊)) 1 with h | h | h
  · have hraises : mode.raises false ⌊q⌋₊ .lt = false := by
      rcases hmode with rfl | rfl | rfl <;> simp [raises]
    rw [compare_lt_iff_lt.mpr h, if_neg (by simp [hraises])]
    exact prescribes_of_lt hmode (by rw [hlower]; linarith)
  · have hne : q - ⌊q⌋₊ ≠ 0 := fun h0 => by norm_num [h0] at h
    have hhalf : q = ⌊q⌋₊ + 1 / 2 := by linarith
    rw [compare_eq_iff_eq.mpr h]
    rcases hmode with rfl | rfl | rfl
    · rw [if_pos ⟨hne, rfl⟩]
      refine ⟨by rw [hupper]; linarith, fun _ => ?_⟩
      push_cast
      rw [abs_of_nonneg hq, abs_of_nonneg (by positivity)]
      linarith
    · rw [if_neg (by simp [raises])]
      refine ⟨by rw [hlower]; linarith, fun _ => ?_⟩
      rw [abs_of_nonneg hq, Int.cast_natCast, Nat.abs_cast]
      linarith
    · rcases Nat.even_or_odd ⌊q⌋₊ with heven | hodd
      · rw [if_neg (by simp [raises, Nat.even_iff.mp heven])]
        exact ⟨by rw [hlower]; linarith, fun _ => by exact_mod_cast heven⟩
      · rw [if_pos ⟨hne, by simp [raises, Nat.odd_iff.mp hodd]⟩]
        exact ⟨by rw [hupper]; linarith, fun _ => by exact_mod_cast hodd.add_one⟩
  · have hne : q - ⌊q⌋₊ ≠ 0 := fun h0 => by norm_num [h0] at h
    have hraises : mode.raises false ⌊q⌋₊ .gt = true := by
      rcases hmode with rfl | rfl | rfl <;> simp [raises]
    rw [compare_gt_iff_gt.mpr h, if_pos ⟨hne, hraises⟩]
    exact prescribes_of_lt hmode (by rw [hupper]; linarith)

theorem prescribes_round (mode : RoundingMode) (q : ℚ) : mode.Prescribes q (mode.round q) := by
  by_cases hmode : mode.Nearest
  · rcases le_total 0 q with hq | hq
    · exact prescribes_of_nonneg hmode hq
    · have h := (prescribes_of_nonneg hmode (neg_nonneg.mpr hq)).neg hmode
      rwa [neg_neg, round_neg, neg_neg, hmode.opposite] at h
  · cases mode with
    | up => exact round_up q
    | down => exact round_down q
    | ceiling => exact round_ceiling q
    | floor => exact round_floor q
    | halfUp | halfDown | halfEven => exact absurd (by simp [Nearest]) hmode

/-- **What a mode prescribes is what it gives.** -/
theorem prescribes_iff : mode.Prescribes q n ↔ n = mode.round q :=
  ⟨fun h => h.unique (prescribes_round mode q), fun h => h ▸ prescribes_round mode q⟩

end RoundingMode

namespace Decimal

variable {d e t f c r : Decimal} {s : Scale} {mode : RoundingMode}

@[simp] theorem value_neg_eq (d : Decimal) : d.neg.value = -d.value := by
  rw [value, value, neg]
  push_cast
  ring

/-- Dropping digits gives an integer of units, the one that the mode prescribes. -/
theorem roundToScale_of_le (hs : s.toInt ≤ d.scale.toInt) (mode : RoundingMode) :
    d.roundToScale s mode = .ok ⟨mode.round (d.value * 10 ^ s.toInt), s⟩ := by
  rw [roundToScale, if_neg (not_lt.mpr hs), ← dropDigits_eq hs]
  rfl

/-- No decimal is moved by a whole unit, and by the modes that take the nearest integer none by
more than half of one. -/
theorem abs_sub_of_prescribes {n : ℤ} (h : mode.Prescribes (d.value * 10 ^ s.toInt) n) :
    |(⟨n, s⟩ : Decimal).value - d.value| < 10 ^ (-s.toInt) ∧
      (mode.Nearest → |(⟨n, s⟩ : Decimal).value - d.value| ≤ 10 ^ (-s.toInt) / 2) := by
  have hpos := ten_zpow_pos (-s.toInt)
  have hunits : (⟨n, s⟩ : Decimal).value - d.value =
      -(d.value * 10 ^ s.toInt - n) * 10 ^ (-s.toInt) := by
    rw [value, neg_mul, sub_mul, mul_assoc, ← zpow_add₀ (by norm_num), add_neg_cancel, zpow_zero,
      mul_one, neg_sub]
  rw [hunits, abs_mul, abs_neg, abs_of_pos hpos]
  refine ⟨by simpa using mul_lt_mul_of_pos_right h.abs_sub_lt hpos, fun hmode => ?_⟩
  have hle := mul_le_mul_of_nonneg_right (h.abs_sub_le hmode) hpos.le
  linarith

/-- The ways to round a decimal to an integer: the integer part `t`, the next integer below `f` and
the one above `c`, and the nearest one `r`. -/
structure IntegersOf (d t f c r : Decimal) : Prop where
  trunc : d.trunc = .ok t
  floor : d.floor = .ok f
  ceil : d.ceil = .ok c
  round : d.round = .ok r
  scale : t.scale = .zero ∧ f.scale = .zero ∧ c.scale = .zero ∧ r.scale = .zero
  floor_le : f.value ≤ d.value ∧ d.value < f.value + 1
  /-- Going up is going down on the other side of zero. -/
  ceil_neg : d.neg.floor = .ok c.neg
  trunc_of_nonneg : 0 ≤ d.value → t = f
  trunc_of_neg : d.value < 0 → t = c
  /-- The nearest integer is as far from zero on both sides, also where two are as near. -/
  round_neg : d.neg.round = .ok r.neg
  nearest : |d.value - r.value| ≤ 1 / 2 ∧ (|d.value - r.value| = 1 / 2 → |d.value| < |r.value|)
  idempotent : t.trunc = .ok t ∧ f.floor = .ok f ∧ c.ceil = .ok c ∧ r.round = .ok r
  exact : (t.value = d.value ↔ d.isIntegral = true) ∧ (f.value = d.value ↔ d.isIntegral = true) ∧
    (c.value = d.value ↔ d.isIntegral = true) ∧ (r.value = d.value ↔ d.isIntegral = true)

/-- Bringing a decimal to a larger scale keeps its value. -/
theorem roundToScale_of_lt (hs : d.scale.toInt < s.toInt)
    (hgap : s.toInt - d.scale.toInt ≤ maxZeros) (mode : RoundingMode) :
    ∃ e, d.roundToScale s mode = .ok e ∧ e.scale = s ∧ e.value = d.value := by
  have h := rescale_of_le hs.le hgap
  refine ⟨_, ?_, rescale_ok h⟩
  rw [roundToScale, if_pos hs, h]

/-- A decimal that can be written out is rounded to an integer. -/
theorem roundToScale_zero (hs : -maxZeros ≤ d.scale.toInt) (mode : RoundingMode) :
    d.roundToScale .zero mode = .ok (ofInt (mode.round d.value)) := by
  obtain ⟨e, he⟩ : ∃ e, d.roundToScale .zero mode = .ok e := by
    rcases lt_or_ge d.scale.toInt Scale.zero.toInt with h | h
    · have hgap : Scale.zero.toInt - d.scale.toInt ≤ maxZeros := by
        rw [Scale.toInt_zero]
        omega
      obtain ⟨e, he, -⟩ := roundToScale_of_lt h hgap mode
      exact ⟨e, he⟩
    · exact ⟨_, roundToScale_of_le h mode⟩
  obtain ⟨hscale, hunscaled⟩ := roundToScale_ok he
  rw [Scale.toInt_zero, zpow_zero, mul_one] at hunscaled
  rw [he, ← hunscaled, ofInt, ← hscale]

/-- An integer is what a number is rounded to iff the number is that integer. -/
theorem value_round_eq_iff (d : Decimal) (mode : RoundingMode) :
    (ofInt (mode.round d.value)).value = d.value ↔ d.isIntegral = true := by
  rw [value_ofInt, isIntegral_iff]
  constructor
  · exact fun h => ⟨_, h.symm⟩
  · rintro ⟨n, hn⟩
    rw [hn, RoundingMode.round_intCast]

/-- **Rounding to an integer**, of a decimal that can be written out. -/
theorem integersOf (hs : -maxZeros ≤ d.scale.toInt) :
    d.IntegersOf (ofInt (RoundingMode.down.round d.value))
      (ofInt (RoundingMode.floor.round d.value)) (ofInt (RoundingMode.ceiling.round d.value))
      (ofInt (RoundingMode.halfUp.round d.value)) where
  trunc := roundToScale_zero hs .down
  floor := roundToScale_zero hs .floor
  ceil := roundToScale_zero hs .ceiling
  round := roundToScale_zero hs .halfUp
  scale := ⟨rfl, rfl, rfl, rfl⟩
  floor_le := by
    rw [value_ofInt, RoundingMode.round_floor]
    exact ⟨Int.floor_le _, Int.lt_floor_add_one _⟩
  ceil_neg := by
    have h := roundToScale_zero (d := d.neg) hs .floor
    rwa [value_neg_eq, RoundingMode.round_neg] at h
  trunc_of_nonneg h := by
    rw [RoundingMode.round_down, RoundingMode.round_floor, truncated, if_pos h]
  trunc_of_neg h := by
    rw [RoundingMode.round_down, RoundingMode.round_ceiling, truncated, if_neg (not_le.mpr h)]
  round_neg := by
    have h := roundToScale_zero (d := d.neg) hs .halfUp
    rwa [value_neg_eq, RoundingMode.round_neg] at h
  nearest := by
    rw [value_ofInt]
    exact RoundingMode.prescribes_round .halfUp d.value
  idempotent := ⟨roundToScale_self _ _, roundToScale_self _ _, roundToScale_self _ _,
    roundToScale_self _ _⟩
  exact := ⟨value_round_eq_iff d _, value_round_eq_iff d _, value_round_eq_iff d _,
    value_round_eq_iff d _⟩

/-- **What rounding gives.** At a scale that is not larger: the multiple of one unit of the scale
that the mode prescribes, less than a unit away and, by the modes that take the nearest one, at most
half of it. At a larger scale: the value itself. To an integer: the four functions and what ties
them together. -/
theorem roundToScale_correct (d : Decimal) (s : Scale) (mode : RoundingMode) :
    (s.toInt ≤ d.scale.toInt → ∃ e, d.roundToScale s mode = .ok e ∧ e.scale = s ∧
      (∀ n, mode.Prescribes (d.value * 10 ^ s.toInt) n ↔ n = e.unscaled) ∧
      |e.value - d.value| < 10 ^ (-s.toInt) ∧
      (mode.Nearest → |e.value - d.value| ≤ 10 ^ (-s.toInt) / 2)) ∧
    (d.scale.toInt < s.toInt → s.toInt - d.scale.toInt ≤ maxZeros →
      ∃ e, d.roundToScale s mode = .ok e ∧ e.scale = s ∧ e.value = d.value) ∧
    (-maxZeros ≤ d.scale.toInt → ∃ t f c r, d.IntegersOf t f c r) := by
  refine ⟨fun hs => ⟨_, roundToScale_of_le hs mode, rfl, fun n => RoundingMode.prescribes_iff, ?_⟩,
    fun hs hgap => roundToScale_of_lt hs hgap mode, fun hs => ⟨_, _, _, _, integersOf hs⟩⟩
  exact abs_sub_of_prescribes (RoundingMode.prescribes_round mode _)

/-- Half a unit goes away from zero and carries into a new digit; as many zeros as can be appended
are appended; the smallest positive number goes up to one. -/
theorem roundToScale_correct_carry :
    let d : Decimal := ⟨-995, ⟨2, by decide, by decide⟩⟩
    let tiny : Decimal := ⟨1, ⟨9223372036854775807, by decide, by decide⟩⟩
    let tenths : Scale := ⟨1, by decide, by decide⟩
    let far : Scale := ⟨4294967297, by decide, by decide⟩
    (d.roundToScale tenths .halfUp = .ok ⟨-100, tenths⟩ ∧
      RoundingMode.halfUp.Prescribes (d.value * 10 ^ tenths.toInt) (-100)) ∧
    (∃ e, d.roundToScale far .halfUp = .ok e ∧ e.scale = far ∧ e.value = d.value) ∧
    ∃ t f r, tiny.IntegersOf t f one r := by
  intro d tiny tenths far
  have hround : d.roundToScale tenths .halfUp = .ok ⟨-100, tenths⟩ :=
    eq_ok_of_toOption (by decide +kernel)
  have hceil : tiny.ceil = .ok one := eq_ok_of_toOption (by decide +kernel)
  obtain ⟨e, he, -, hprescribes, -⟩ := (roundToScale_correct d tenths .halfUp).1 (by decide)
  obtain rfl := Except.ok.inj (hround.symm.trans he)
  obtain ⟨t, f, c, r, h⟩ := (roundToScale_correct tiny tenths .halfUp).2.2 (by decide)
  obtain rfl := Except.ok.inj (hceil.symm.trans h.ceil)
  exact ⟨⟨hround, (hprescribes (-100)).mpr rfl⟩,
    (roundToScale_correct d far .halfUp).2.1 (by decide) (by decide), t, f, r, h⟩

end Decimal

end Reckon
