import Reckon.Proofs.Decimal.Quotient

/-!
# Scales that a quotient can have

What a quotient is, and at which scale, does not depend on how large scales can be. Each quotient by
a nonzero divisor has one scale, which may not fit in 64 bits; then division fails. It also fails if
one of the scales on the way there does not fit: the preferred scale, or that of the digits before
they are rounded, which is larger than the scale that an exact quotient gets in the end.

Results:
* `existsUnique_quotientScale`: the scale that a quotient has.
* `isQuotientScale_of_div`: a quotient that is returned has that scale.
* `div_ok_iff`: when there is a quotient.
* `div_error_iff`: the errors of division.
* `div_one_overflow`: a decimal that is not divided by one.
-/

namespace Reckon

namespace Decimal

variable {a b : Decimal} {q : ℚ} {s : ℤ}

/-! ## Numbers with all the digits that are kept -/

/-- Written at this scale, the number has just as many digits as a quotient keeps. -/
def FullAt (q : ℚ) (s : ℤ) : Prop :=
  ∃ k : ℤ, q = k * 10 ^ (-s) ∧ 10 ^ (precision - 1) ≤ |k| ∧ |k| < 10 ^ precision

theorem numDigits_eq_precision {n : ℕ} (hlow : 10 ^ (precision - 1) ≤ n)
    (hup : n < 10 ^ precision) : numDigits n = precision := by
  refine le_antisymm ((numDigits_le_iff (by decide)).mpr hup) (not_lt.mp fun hlt => ?_)
  have hle : numDigits n ≤ precision - 1 := Nat.le_sub_one_of_lt hlt
  exact absurd ((numDigits_le_iff (by decide)).mp hle) (not_lt.mpr hlow)

theorem FullAt.log_eq (h : FullAt q s) : Int.log 10 |q| = precision - 1 - s := by
  obtain ⟨k, rfl, hlow, hup⟩ := h
  have hlow' : 10 ^ (precision - 1) ≤ k.natAbs := by
    rw [Int.abs_eq_natAbs] at hlow
    exact_mod_cast hlow
  have hup' : k.natAbs < 10 ^ precision := by
    rw [Int.abs_eq_natAbs] at hup
    exact_mod_cast hup
  have habs : |(k : ℚ) * 10 ^ (-s)| = k.natAbs * 10 ^ (-s) := by
    rw [abs_mul, abs_of_pos (ten_zpow_pos _), Nat.cast_natAbs, Int.cast_abs]
  rw [habs, log_natCast_mul (lt_of_lt_of_le (by positivity) hlow'),
    numDigits_eq_precision hlow' hup']

/-- There is one scale at most at which a number has these digits. -/
theorem FullAt.unique {t : ℤ} (hs : FullAt q s) (ht : FullAt q t) : s = t := by
  have h := hs.log_eq.symm.trans ht.log_eq
  omega

theorem FullAt.sign_mul {sign : ℤ} (hsign : |sign| = 1) (h : FullAt q s) : FullAt (sign * q) s := by
  obtain ⟨k, rfl, hlow, hup⟩ := h
  have habs : |sign * k| = |k| := by rw [abs_mul, hsign, one_mul]
  refine ⟨sign * k, ?_, habs.symm ▸ hlow, habs.symm ▸ hup⟩
  push_cast
  ring

/-- The digits after rounding, at a scale that is one less if they carry into one digit more. -/
theorem fullAt_rounded {R : ℕ} (hlow : 10 ^ (precision - 1) ≤ R) (hup : R ≤ 10 ^ precision)
    (s : ℤ) : FullAt (R * 10 ^ (-s)) (s - if precision < numDigits R then 1 else 0) := by
  split_ifs with hcarry
  · have hlt : ¬ R < 10 ^ precision := by
      rw [← numDigits_le_iff (by decide)]
      exact not_le.mpr hcarry
    obtain rfl : R = 10 ^ precision := le_antisymm hup (not_lt.mp hlt)
    refine ⟨10 ^ (precision - 1), ?_, by decide, by decide⟩
    rw [neg_sub, sub_eq_add_neg, zpow_one_add₀ (by norm_num)]
    simp only [precision]
    push_cast
    ring
  · refine ⟨R, by rw [sub_zero]; rfl, ?_, ?_⟩
    · rw [Nat.abs_cast]
      exact_mod_cast hlow
    · rw [Nat.abs_cast]
      exact_mod_cast (numDigits_le_iff (by decide)).mp (not_lt.mp hcarry)

/-- The integer part of a positive number in units of the last digit that is kept. -/
theorem kept_bounds (hpos : 0 < q) :
    (10 : ℚ) ^ (precision - 1) ≤ q / 10 ^ (Int.log 10 q + 1 - precision) ∧
      q / 10 ^ (Int.log 10 q + 1 - precision) < 10 ^ precision := by
  have hunit := ten_zpow_pos (Int.log 10 q + 1 - precision)
  have hlow := Int.zpow_log_le_self (b := 10) (by decide) hpos
  have hup := Int.lt_zpow_succ_log_self (b := 10) (by decide) q
  have hprecision : ((precision - 1 : ℕ) : ℤ) = precision - 1 := rfl
  push_cast at hlow hup
  rw [le_div_iff₀ hunit, div_lt_iff₀ hunit, ← zpow_natCast, ← zpow_natCast,
    ← zpow_add₀ (by norm_num), ← zpow_add₀ (by norm_num), hprecision, add_sub_cancel]
  refine ⟨le_of_eq_of_le ?_ hlow, hup⟩
  congr 1
  ring

/-- A short number is not rounded. -/
theorem significant_of_short (h : Short q) : significant q = q := by
  wlog hpos : 0 < q generalizing q
  · rcases (not_lt.mp hpos).eq_or_lt with rfl | hneg
    · exact significant_zero
    · have hq := this h.neg (neg_pos.mpr hneg)
      rwa [significant_neg, neg_inj] at hq
  obtain ⟨hlow, hup⟩ := kept_bounds hpos
  rw [significant_of_nonneg hpos.le]
  generalize Int.log 10 q + 1 - (precision : ℤ) = e at *
  have hunit := ten_zpow_pos e
  obtain ⟨y, rfl⟩ : ∃ y, q = y * 10 ^ e := ⟨q / 10 ^ e, (div_mul_cancel₀ _ hunit.ne').symm⟩
  rw [mul_div_cancel_right₀ _ hunit.ne'] at hlow hup ⊢
  have hy0 : 0 ≤ y := le_trans (by positivity) hlow
  have hfloor : y = ⌊y⌋₊ := (short_mul_zpow (Nat.le_floor (by exact_mod_cast hlow))
    ((Nat.floor_lt hy0).mpr (by exact_mod_cast hup)) e).mp h
  rw [hfloor, RoundingMode.magnitude_natCast]

/-! ## The scale of the digits that rounding leaves -/

/-- The digits after rounding have a scale just if it fits in 64 bits. The scale before a carry is
taken out is one larger, so it fits as well. -/
theorem rounded_isSome_iff (rounded : ℕ) (scale : Scale) (count : ℕ) (exact : Bool) :
    ((Scale.ofInt? (scale.toInt - count)).bind fun scale =>
      if precision < numDigits rounded then
        (Scale.ofInt? (scale.toInt - 1)).map fun scale => (⟨rounded / 10, scale, exact⟩ : Rounded)
      else some ⟨rounded, scale, exact⟩).isSome = true ↔
      Scale.Fits (scale.toInt - count - if precision < numDigits rounded then 1 else 0) := by
  cases hcount : Scale.ofInt? (scale.toInt - count) with
  | none =>
    have hnot := Scale.ofInt?_eq_none.mp hcount
    have hfits := scale.fits
    unfold Scale.Fits at hnot hfits ⊢
    exact iff_of_false Bool.false_ne_true (by split_ifs <;> omega)
  | some t =>
    rw [Option.bind_some, ← Scale.toInt_of_ofInt? hcount]
    split_ifs with hcarry
    · rw [Option.isSome_map, Scale.isSome_ofInt?]
    · exact iff_of_true rfl (by rw [sub_zero]; exact t.fits)

/-- Digits at a scale of any size are rounded just if this scale and the one that they get fit in
64 bits. -/
theorem exists_fullAt {x : ℚ} (hD : precision < numDigits ⌊x⌋₊) {sticky : Bool}
    (hs : sticky = true ↔ x ≠ ⌊x⌋₊) (s : ℤ) :
    ∃ full, FullAt (significant (x * 10 ^ (-s))) full ∧ full ≤ s ∧
      (((Scale.ofInt? s).bind fun scale => roundSignificant ⌊x⌋₊ scale sticky).isSome = true ↔
        Scale.Fits s ∧ Scale.Fits full) := by
  have hx := one_le_of_numDigits hD
  have hround := roundSignificant_eq_bind (by linarith) hD hs
  rw [significant_mul_zpow hx hD, ← neg_sub s]
  generalize hR : RoundingMode.halfEven.magnitude false _ = R at hround ⊢
  have hlow : 10 ^ (precision - 1) ≤ R := hR ▸ (floor_kept hD).1.trans le_magnitude_halfEven
  obtain ⟨_, rfl, hup, -⟩ := hround .zero
  generalize numDigits ⌊x⌋₊ - precision = count at hround ⊢
  refine ⟨_, fullAt_rounded hlow hup (s - count), by split_ifs <;> omega, ?_⟩
  cases hscale : Scale.ofInt? s with
  | none => exact iff_of_false Bool.false_ne_true fun h => Scale.ofInt?_eq_none.mp hscale h.1
  | some scale =>
    obtain ⟨_, rfl, -, heq⟩ := hround scale
    rw [Option.bind_some, heq, rounded_isSome_iff, ← Scale.toInt_of_ofInt? hscale,
      and_iff_right scale.fits]

/-- **When the digits of a quotient can be rounded**: if the scale at which they are formed and the
one that they get fit in 64 bits. -/
theorem quotient_isSome_iff (ha : a.unscaled ≠ 0) (hb : b.unscaled ≠ 0) :
    ∃ full, FullAt (significant (a.value / b.value)) full ∧
      full ≤ a.scale.toInt - b.scale.toInt + quotientShift a.unscaled.natAbs b.unscaled.natAbs ∧
      ∀ preferred : Scale, preferred.toInt = a.scale.toInt - b.scale.toInt →
        ((quotient a b preferred).isSome = true ↔
          Scale.Fits (a.scale.toInt - b.scale.toInt +
            quotientShift a.unscaled.natAbs b.unscaled.natAbs) ∧ Scale.Fits full) := by
  have hn : 0 < b.unscaled.natAbs := Int.natAbs_pos.mpr hb
  have hD := precision_lt_numDigits (Int.natAbs_pos.mpr ha) hn
  have hsign : |a.unscaled.sign * b.unscaled.sign| = 1 := by
    rw [abs_mul, Int.abs_sign_of_ne_zero ha, Int.abs_sign_of_ne_zero hb, one_mul]
  rw [value_div_value hb, significant_sign_mul]
  unfold quotient
  generalize a.unscaled.natAbs = m, b.unscaled.natAbs = n at *
  simp only
  generalize quotientShift m n = k at *
  have hsticky := sticky_iff (m := m * 10 ^ k) hn
  rw [← Nat.floor_div_eq_div (K := ℚ)] at hD
  obtain ⟨full, hfull, hle, hiff⟩ := exists_fullAt hD hsticky (a.scale.toInt - b.scale.toInt + k)
  rw [← appended_zeros, show (k : ℤ) - (a.scale.toInt - b.scale.toInt + k) =
    b.scale.toInt - a.scale.toInt by omega] at hfull
  refine ⟨full, hfull.sign_mul hsign, hle, fun preferred hp => ?_⟩
  rw [← hiff, hp, Nat.floor_div_eq_div]
  cases Scale.ofInt? (a.scale.toInt - b.scale.toInt + k) with
  | none => rfl
  | some s => rw [Option.bind_some, Option.bind_some, Option.isSome_map]

/-! ## The scale of a quotient -/

/-- The scale of the quotient of two decimals. -/
structure IsQuotientScale (a b : Decimal) (s : ℤ) : Prop where
  /-- Zero is given at the preferred scale. -/
  zero : a.value = 0 → s = a.scale.toInt - b.scale.toInt
  /-- A quotient that is not short is rounded to the digits that are kept. -/
  rounded : ¬ Short (a.value / b.value) → FullAt (significant (a.value / b.value)) s
  /-- A short quotient gets the digits that are kept and loses zeros at the end, down to the
  preferred scale. -/
  exact : a.value ≠ 0 → Short (a.value / b.value) →
    ∃ least full : ℤ, IsLeast {m : ℤ | ∃ k : ℤ, a.value / b.value = k * 10 ^ (-m)} least ∧
      FullAt (a.value / b.value) full ∧ s = max least (min (a.scale.toInt - b.scale.toInt) full)

theorem isQuotientScale_zero (h0 : a.value = 0) :
    IsQuotientScale a b (a.scale.toInt - b.scale.toInt) where
  zero _ := rfl
  rounded hlong := absurd (by rw [h0, zero_div]; exact short_zero) hlong
  exact hne := absurd h0 hne

theorem IsQuotientScale.unique {t : ℤ} (hs : IsQuotientScale a b s) (ht : IsQuotientScale a b t) :
    s = t := by
  by_cases h0 : a.value = 0
  · rw [hs.zero h0, ht.zero h0]
  by_cases hshort : Short (a.value / b.value)
  · obtain ⟨least, full, hleast, hfull, rfl⟩ := hs.exact h0 hshort
    obtain ⟨least', full', hleast', hfull', rfl⟩ := ht.exact h0 hshort
    rw [hleast.unique hleast', hfull.unique hfull']
  · exact (hs.rounded hshort).unique (ht.rounded hshort)

/-- **A quotient has one scale**, which may not fit in 64 bits. -/
theorem existsUnique_quotientScale (hb : b.value ≠ 0) : ∃! s, IsQuotientScale a b s := by
  refine existsUnique_of_exists_of_unique ?_ fun s t hs ht => hs.unique ht
  by_cases h0 : a.value = 0
  · exact ⟨_, isQuotientScale_zero h0⟩
  obtain ⟨full, hfull, -⟩ := quotient_isSome_iff (mt value_eq_zero.mpr h0) (mt value_eq_zero.mpr hb)
  by_cases hshort : Short (a.value / b.value)
  · rw [significant_of_short hshort] at hfull
    obtain ⟨k, hk, hlow, -⟩ := id hfull
    have hleast := isLeast_scale (abs_pos.mp (lt_of_lt_of_le (by positivity) hlow)) full
    rw [← hk] at hleast
    exact ⟨_, fun h => absurd h h0, fun h => absurd hshort h, fun _ _ =>
      ⟨_, full, hleast, hfull, rfl⟩⟩
  · exact ⟨full, fun h => absurd h h0, fun _ => hfull, fun _ h => absurd h hshort⟩

/-- A quotient that division gives has the scale that it is to have. -/
theorem isQuotientScale_of_div {r : Decimal} (h : a.div b = .ok r) :
    IsQuotientScale a b r.scale.toInt := by
  by_cases ha : a.unscaled = 0
  · obtain ⟨-, p, hp, ⟨-, rfl⟩ | ⟨h0, -⟩⟩ := div_ok h
    · show IsQuotientScale a b p.toInt
      exact hp ▸ isQuotientScale_zero (value_eq_zero.mpr ha)
    · exact absurd ha h0
  obtain ⟨sign, y, e, d, p, hquotient⟩ := exists_quotient h ha
  constructor
  case zero => exact fun h0 => absurd (value_eq_zero.mp h0) ha
  case rounded =>
    intro hlong
    obtain rfl := hquotient.result_of_not_short hlong
    exact ⟨_, (value_div h).2.symm, hquotient.digits_bounds⟩
  case exact => exact fun _ hshort => hquotient.scale_of_short hshort

/-! ## When division fails -/

/-- The preferred scale fits in 64 bits, and so does the one at which the digits of a quotient other
than zero are formed. -/
def ScalesFit (a b : Decimal) : Prop :=
  Scale.Fits (a.scale.toInt - b.scale.toInt) ∧ (a.unscaled ≠ 0 →
    Scale.Fits (a.scale.toInt - b.scale.toInt +
      quotientShift a.unscaled.natAbs b.unscaled.natAbs))

instance (a b : Decimal) : Decidable (ScalesFit a b) := inferInstanceAs (Decidable (_ ∧ (_ → _)))

/-- A scale that is too small for all the digits that are kept is too small in the end: zeros are
taken away only down to the preferred scale. -/
theorem IsQuotientScale.le_full (h : IsQuotientScale a b s) (h0 : a.value ≠ 0)
    (hp : Scale.Fits (a.scale.toInt - b.scale.toInt)) (hs : Scale.Fits s) {full : ℤ}
    (hfull : FullAt (significant (a.value / b.value)) full) : -9223372036854775808 ≤ full := by
  by_cases hshort : Short (a.value / b.value)
  · rw [significant_of_short hshort] at hfull
    obtain ⟨least, full', hleast, hfull', rfl⟩ := h.exact h0 hshort
    obtain rfl := hfull.unique hfull'
    obtain ⟨k, hk, -⟩ := hfull
    have hle : least ≤ full := hleast.2 ⟨k, hk⟩
    have hlower := hs.1
    have hlower' := hp.1
    omega
  · rw [hfull.unique (h.rounded hshort)]
    exact hs.1

/-- **When there is a quotient.** -/
theorem div_ok_iff (hb : b.value ≠ 0) (h : IsQuotientScale a b s) :
    (∃ r, a.div b = .ok r) ↔ Scale.Fits s ∧ ScalesFit a b := by
  constructor
  · rintro ⟨r, hr⟩
    obtain rfl := h.unique (isQuotientScale_of_div hr)
    obtain ⟨-, p, hp, hcases⟩ := div_ok hr
    refine ⟨r.scale.fits, hp ▸ p.fits, fun h0 => ?_⟩
    obtain ⟨ha, -⟩ | ⟨-, t, -, ht, -⟩ := hcases
    · exact absurd ha h0
    · rw [← hp, ← ht]
      exact t.fits
  · rintro ⟨hs, hpreferred, hformed⟩
    obtain ⟨p, hp⟩ := Scale.exists_ofInt? hpreferred
    have hb' := mt value_eq_zero.mpr hb
    rw [div, if_neg hb', hp]
    by_cases ha : a.unscaled = 0
    · exact ⟨_, if_pos ha⟩
    obtain ⟨full, hfull, hle, hiff⟩ := quotient_isSome_iff ha hb'
    have hlow := h.le_full (mt value_eq_zero.mp ha) hpreferred hs hfull
    have hquot := (hiff p (Scale.toInt_of_ofInt? hp)).mpr
      ⟨hformed ha, hlow, hle.trans (hformed ha).2⟩
    obtain ⟨r, hr⟩ := Option.isSome_iff_exists.mp hquot
    exact ⟨r, by simp only [if_neg ha, hr]⟩

theorem div_error {error : ArithmeticError} (h : a.div b = .error error) :
    error = if b.value = 0 then .divisionByZero else .scaleOverflow := by
  unfold div at h
  by_cases hb : b.unscaled = 0
  · rw [if_pos hb] at h
    cases h
    rw [if_pos (value_eq_zero.mpr hb)]
  rw [if_neg hb] at h
  rw [if_neg (mt value_eq_zero.mp hb)]
  split at h
  · cases h
    rfl
  · split at h
    · cases h
    · split at h <;> cases h
      rfl

/-! ## Division by one -/

theorem short_of_digits (hdigits : a.digits ≤ precision) : Short a.value := by
  refine ⟨a.unscaled, -a.scale.toInt, ?_, rfl⟩
  rw [Int.abs_eq_natAbs]
  exact_mod_cast (numDigits_le_iff (by decide)).mp hdigits

/-- A decimal of no more digits than are kept has them all at a larger scale. -/
theorem fullAt_value (h0 : a.unscaled ≠ 0) (hdigits : a.digits ≤ precision) :
    FullAt a.value (a.scale.toInt + (precision - a.digits : ℕ)) := by
  obtain ⟨hlow, hup⟩ := numDigits_bounds (Int.natAbs_pos.mpr h0)
  have hpos := numDigits_pos a.unscaled.natAbs
  unfold digits at *
  generalize hzeros : precision - numDigits a.unscaled.natAbs = zeros
  have habs : |a.unscaled * 10 ^ zeros| = (a.unscaled.natAbs * 10 ^ zeros : ℕ) := by
    rw [abs_mul, abs_of_pos (a := (10 : ℤ) ^ zeros) (by positivity), Int.abs_eq_natAbs]
    push_cast
    rfl
  refine ⟨a.unscaled * 10 ^ zeros, ?_, ?_, ?_⟩
  · rw [neg_add, zpow_add₀ (by norm_num), value, zpow_neg 10 (zeros : ℤ), zpow_natCast]
    push_cast
    field_simp
  · have hle := Nat.mul_le_mul_right (10 ^ zeros) hlow
    rw [← Nat.pow_add, show numDigits a.unscaled.natAbs - 1 + zeros = precision - 1 by omega] at hle
    rw [habs]
    exact_mod_cast hle
  · have hlt := Nat.mul_lt_mul_of_pos_right hup (show 0 < 10 ^ zeros by positivity)
    rw [← Nat.pow_add, show numDigits a.unscaled.natAbs + zeros = precision by omega] at hlt
    rw [habs]
    exact_mod_cast hlt

/-- Divided by one, a decimal of no more digits than are kept is to keep its scale. -/
theorem isQuotientScale_one (hdigits : a.digits ≤ precision) :
    IsQuotientScale a one a.scale.toInt := by
  have hscale : a.scale.toInt - one.scale.toInt = a.scale.toInt := sub_zero _
  have hq : a.value / one.value = a.value := by rw [value_one, div_one]
  constructor
  case zero => exact fun _ => hscale.symm
  case rounded => exact fun hlong => absurd (hq.symm ▸ short_of_digits hdigits) hlong
  case exact =>
    intro h0 _
    have hne := mt value_eq_zero.mpr h0
    have hleast := isLeast_scale hne a.scale.toInt
    rw [hq, hscale]
    exact ⟨_, _, hleast, fullAt_value hne hdigits, by omega⟩

/-- A decimal of no more digits than are kept is its own quotient by one, if it has one: it has more
digits when it is formed, and their scale need not fit in 64 bits. -/
theorem div_one_eq (hdigits : a.digits ≤ precision) :
    a.div one = if ScalesFit a one then .ok a else .error .scaleOverflow := by
  have hone : one.value ≠ 0 := value_one ▸ one_ne_zero
  have hs := isQuotientScale_one hdigits
  split_ifs with hfit
  · obtain ⟨r, hr⟩ := (div_ok_iff hone hs).mpr ⟨a.scale.fits, hfit⟩
    have hvalue : r.value = a.value := by
      rw [(value_div hr).2, value_one, div_one, significant_of_short (short_of_digits hdigits)]
    rw [hr, eq_of_value hvalue (Scale.ext ((isQuotientScale_of_div hr).unique hs))]
  · cases h : a.div one with
    | ok r => exact absurd ((div_ok_iff hone hs).mp ⟨r, h⟩).2 hfit
    | error error => rw [div_error h, if_neg hone]

/-! ## The errors of division -/

/-- **When division fails**: if the divisor is zero, if the scale of the quotient does not fit in 64
bits, or if a scale on the way to it does not. -/
theorem div_error_iff (a b : Decimal) :
    (a.div b = .error .divisionByZero ↔ b.value = 0) ∧
    (b.value ≠ 0 → (∃! s, IsQuotientScale a b s) ∧
      ∀ s, IsQuotientScale a b s →
        (a.div b = .error .scaleOverflow ↔ ¬ Scale.Fits s ∨ ¬ ScalesFit a b)) ∧
    (∀ r, a.div b = .ok r → IsQuotientScale a b r.scale.toInt) ∧
    (∀ error, a.div b = .error error → error = .divisionByZero ∨ error = .scaleOverflow) ∧
    (a.digits ≤ precision →
      a.div one = if ScalesFit a one then .ok a else .error .scaleOverflow) := by
  refine ⟨⟨fun h => ?_, fun h => ?_⟩, fun hb => ⟨existsUnique_quotientScale hb, fun s hs => ?_⟩,
    fun r => isQuotientScale_of_div, fun error h => ?_, div_one_eq⟩
  · by_contra hb
    have herror := div_error h
    rw [if_neg hb] at herror
    cases herror
  · rw [div, if_pos (value_eq_zero.mp h)]
  · rw [← not_and_or, ← div_ok_iff hb hs]
    cases h : a.div b with
    | ok r => exact iff_of_false (fun h => nomatch h) (not_not.mpr ⟨r, rfl⟩)
    | error error =>
      rw [div_error h, if_neg hb]
      exact iff_of_true rfl (fun ⟨_, h⟩ => nomatch h)
  · rw [div_error h]
    split_ifs
    · exact .inl rfl
    · exact .inr rfl

/-- `1.00` keeps its zeros. -/
theorem div_error_iff_hundredths :
    let a : Decimal := ⟨100, ⟨2, by decide, by decide⟩⟩
    one.value ≠ 0 ∧ a.digits ≤ precision ∧ ScalesFit a one ∧ a.div one = .ok a ∧
      IsQuotientScale a one 2 ∧ (∃! s, IsQuotientScale a one s) ∧
      a.div one ≠ .error .scaleOverflow := by
  intro a
  have hone : one.value ≠ 0 := value_one ▸ one_ne_zero
  have hdigits : a.digits ≤ precision := by decide
  have hfit : ScalesFit a one := by decide
  obtain ⟨-, hdiv, hscale, -, hself⟩ := div_error_iff a one
  have hok := hself hdigits
  rw [if_pos hfit] at hok
  have htwo := hscale a hok
  obtain ⟨hunique, hiff⟩ := hdiv hone
  refine ⟨hone, hdigits, hfit, hok, htwo, hunique, fun herror => ?_⟩
  rcases (hiff _ htwo).mp herror with h | h
  · exact h (by decide)
  · exact h hfit

/-- The least positive decimal is not divided by one, though the scale of the quotient would fit in
64 bits: it is formed with more digits. -/
theorem div_one_overflow :
    let least : Decimal := ⟨1, ⟨9223372036854775807, by decide, by decide⟩⟩
    one.value ≠ 0 ∧ least.digits ≤ precision ∧ IsQuotientScale least one 9223372036854775807 ∧
      Scale.Fits 9223372036854775807 ∧ least.div one = .error .scaleOverflow :=
  ⟨value_one ▸ one_ne_zero, by decide, isQuotientScale_one (by decide), by decide, rfl⟩

end Decimal

end Reckon
