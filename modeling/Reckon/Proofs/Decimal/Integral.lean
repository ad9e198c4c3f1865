import Mathlib.Algebra.Order.Field.Rat
import Reckon.Proofs.Decimal.Reach

/-!
# Integral decimals have their integer

An integral decimal is taken as an integer by dropping zeros behind the point or by appending zeros
in front of it. Only the second can fail, and only where the scale zero is out of reach. So the
decimals that an operation on integers accepts are those with `IsInteger`, and the integer it works
with is the value, whichever scale the decimal has.

Results:
* `toInteger_eq_some_iff`, `toInteger_eq_none_iff`: what `toInteger` says of a decimal.
* `integerOperand_eq_ok_iff`, `integerOperand_of_not_integral`: which decimals an operation on
  integers accepts.
* `integerOperand_exact`: the test for integers and what it decides, in terms of the value.
-/

namespace Reckon.Decimal

variable {d e : Decimal} {m n : ℤ} {operation : String}

/-- The value is this integer, and the decimal can be brought to the scale of integers. -/
def IsInteger (d : Decimal) (n : ℤ) : Prop := d.value = n ∧ ¬d.OutOfReach .zero

theorem IsInteger.unique (h : d.value = e.value) (hd : d.IsInteger m) (he : e.IsInteger n) :
    m = n := by
  have hmn : (m : ℚ) = n := hd.1.symm.trans (h.trans he.1)
  exact Int.cast_injective hmn

/-- Up to `maxZeros` zeros in front of the point can be written out. -/
theorem isInteger_of_value (hv : d.value = n) (hs : -maxZeros ≤ d.scale.toInt) :
    d.IsInteger n := by
  have hmax : maxZeros = 4294967295 := rfl
  refine ⟨hv, ?_⟩
  rintro (⟨-, hgap⟩ | hgap)
  all_goals
    rw [Scale.toInt_zero] at hgap
    omega

theorem isInteger_ofInt (n : ℤ) : (ofInt n).IsInteger n :=
  isInteger_of_value (value_ofInt n) (show -maxZeros ≤ Scale.zero.toInt by decide)

theorem toInteger_eq_none_iff : d.toInteger = .ok none ↔ ¬∃ n : ℤ, d.value = n := by
  rw [← isIntegral_iff]
  constructor
  · intro h hi
    rw [toInteger_eq_none h] at hi
    cases hi
  · intro hi
    rw [toInteger, if_neg hi]

/-- **The integer of a decimal** is its value, and it is missing only where it cannot be written
out. -/
theorem toInteger_eq_some_iff : d.toInteger = .ok (some n) ↔ d.IsInteger n := by
  constructor
  · intro h
    have hv := toInteger_eq_some h
    refine ⟨hv, fun hreach => ?_⟩
    obtain ⟨error, herror⟩ := (toInteger_error_iff (isIntegral_iff.mpr ⟨n, hv⟩)).mpr hreach
    rw [h] at herror
    cases herror
  · rintro ⟨hv, hreach⟩
    have hi : d.isIntegral = true := isIntegral_iff.mpr ⟨n, hv⟩
    cases h : d.toInteger with
    | error error => exact absurd ((toInteger_error_iff hi).mp ⟨error, h⟩) hreach
    | ok integer =>
      cases integer with
      | none => exact absurd ⟨n, hv⟩ (toInteger_eq_none_iff.mp h)
      | some m =>
        have hmn : (m : ℚ) = n := (toInteger_eq_some h).symm.trans hv
        rw [Int.cast_injective hmn]

theorem integerOperand_eq_ok_iff : d.integerOperand operation = .ok n ↔ d.IsInteger n := by
  constructor
  · intro h
    obtain ⟨integer, hinteger, h⟩ := bind_ok h
    cases integer with
    | none => cases h
    | some m =>
      cases h
      exact toInteger_eq_some_iff.mp hinteger
  · intro h
    rw [integerOperand, toInteger_eq_some_iff.mpr h]
    rfl

/-- Decimals of the same value are taken as the same integer. -/
theorem integerOperand_congr {operation' : String} (h : d.value = e.value)
    (hd : d.integerOperand operation = .ok m) (he : e.integerOperand operation' = .ok n) : m = n :=
  (integerOperand_eq_ok_iff.mp hd).unique h (integerOperand_eq_ok_iff.mp he)

theorem integerOperand_of_not_integral (h : ¬∃ n : ℤ, d.value = n) (operation : String) :
    d.integerOperand operation = .error (.notIntegral operation d) := by
  rw [integerOperand, toInteger_eq_none_iff.mpr h]
  rfl

theorem toInteger_error {error : ArithmeticError} (h : d.toInteger = .error error) :
    error = .scaleOverflow ∧ d.OutOfReach .zero := by
  have hi : d.isIntegral = true := by
    by_contra hi
    rw [toInteger, if_neg hi] at h
    cases h
  refine ⟨?_, (toInteger_error_iff hi).mp ⟨error, h⟩⟩
  rw [toInteger, if_pos hi] at h
  split_ifs at h with hs h0
  cases hrescale : d.rescale .zero with
  | ok e =>
    rw [hrescale] at h
    cases h
  | error e =>
    rw [hrescale] at h
    cases h
    exact rescale_error hrescale

/-- An operation on integers refuses a decimal because it cannot be written out or is no integer. -/
theorem integerOperand_error {error : ArithmeticError}
    (h : d.integerOperand operation = .error error) :
    error = .scaleOverflow ∧ d.OutOfReach .zero ∨
      error = .notIntegral operation d ∧ ¬∃ n : ℤ, d.value = n := by
  obtain h | ⟨integer, hinteger, h⟩ := bind_error h
  · exact .inl (toInteger_error h)
  · cases integer with
    | none =>
      cases h
      exact .inr ⟨rfl, toInteger_eq_none_iff.mp hinteger⟩
    | some n => cases h

/-- **Which decimals are integers**, and what an operation on integers does with a decimal: the test
is that the value is an integer, one that can be written out is taken as its value, and the scale
plays no other part. -/
theorem integerOperand_exact (d : Decimal) :
    (d.isIntegral = true ↔ ∃ n : ℤ, d.value = n) ∧
    (d.toInteger = .ok none ↔ ¬∃ n : ℤ, d.value = n) ∧
    (∀ n : ℤ, d.value = n → -(2 ^ 32 - 1) ≤ d.scale.toInt → d.toInteger = .ok (some n)) ∧
    (∀ (operation : String) (n : ℤ), d.value = n → -(2 ^ 32 - 1) ≤ d.scale.toInt →
      d.integerOperand operation = .ok n) ∧
    (∀ operation, (¬∃ n : ℤ, d.value = n) →
      d.integerOperand operation = .error (.notIntegral operation d)) ∧
    ∀ (e : Decimal) (operation operation' : String) (m n : ℤ), d.value = e.value →
      d.integerOperand operation = .ok m → e.integerOperand operation' = .ok n → m = n := by
  refine ⟨isIntegral_iff, toInteger_eq_none_iff, ?_, ?_, ?_, ?_⟩
  · intro n hv hs
    exact toInteger_eq_some_iff.mpr (isInteger_of_value hv hs)
  · intro operation n hv hs
    exact integerOperand_eq_ok_iff.mpr (isInteger_of_value hv hs)
  · intro operation h
    exact integerOperand_of_not_integral h operation
  · intro e operation operation' m n h hd he
    exact integerOperand_congr h hd he

/-- Zeros behind the point are dropped and zeros in front of it are appended, with the same result;
a tenth is no integer, though it has as many digits as its scale says. -/
theorem integerOperand_exact_tenth :
    let behind : Decimal := ⟨-1200, ⟨1, by decide, by decide⟩⟩
    let front : Decimal := ⟨-12, ⟨-1, by decide, by decide⟩⟩
    let tenth : Decimal := ⟨10, ⟨2, by decide, by decide⟩⟩
    behind.value = (-120 : ℤ) ∧ behind.toInteger = .ok (some (-120)) ∧
      front.integerOperand "BitNot" = .ok (-120) ∧
      (∀ m n, behind.integerOperand "'<<'" = .ok m → front.integerOperand "BitNot" = .ok n →
        m = n) ∧
      (¬∃ n : ℤ, tenth.value = n) ∧ tenth.toInteger = .ok none ∧
      tenth.integerOperand "BitNot" = .error (.notIntegral "BitNot" tenth) := by
  intro behind front tenth
  have hbehind : behind.value = (-120 : ℤ) := by norm_num [behind, value]
  have hfront : front.value = (-120 : ℤ) := by norm_num [front, value]
  obtain ⟨htenth, hnone, -, -, hrejected, -⟩ := integerOperand_exact tenth
  obtain ⟨-, -, hsome, -, -, hsame⟩ := integerOperand_exact behind
  obtain ⟨-, -, -, haccepted, -, -⟩ := integerOperand_exact front
  have hnot : ¬∃ n : ℤ, tenth.value = n := fun h => absurd (htenth.mpr h) (by decide)
  exact ⟨hbehind, hsome _ hbehind (by decide), haccepted _ _ hfront (by decide),
    fun m n => hsame front _ _ m n (hbehind.trans hfront.symm), hnot, hnone.mpr hnot,
    hrejected _ hnot⟩

end Reckon.Decimal
