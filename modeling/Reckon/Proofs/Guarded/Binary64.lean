import Reckon.Proofs.Binary64.Shortest
import Reckon.Proofs.Decimal.Quotient
import Reckon.Proofs.Decimal.RoundTrip
import Reckon.Proofs.Guarded.Arithmetic
import Reckon.Decimal.Binary64

/-!
# Guarded reading of binary64 numbers

The decimal of a binary64 number is read from a text with the shortest digits of the number and an
exponent. The text is a literal and its exponent is small, so the reader finds the decimal that the
digits stand for.

Results:
* `ofBinary64?_eq`, `ofResult_eq`: the decimal of a number is read without faults.
-/

namespace Reckon

namespace Decimal

theorem normalized_of_trailingZeros {n : ℕ} (scale : Scale) (h0 : n ≠ 0)
    (h : trailingZeros n = 0) : normalized ⟨n, scale⟩ = ⟨n, scale⟩ := by
  have hscale : Scale.ofInt? (scale.toInt - ((0 : ℕ) : ℤ)) = some scale := by
    rw [Nat.cast_zero, sub_zero, Scale.ofInt?_toInt]
  rw [normalized, if_neg (Int.natCast_ne_zero.mpr h0), stripZeros]
  simp only [Int.natAbs_natCast, h, Nat.zero_min, hscale, pow_zero, Int.tdiv_one]

end Decimal

namespace Guarded

open Binary64 Decimal

/-- The digits of `n * 10 ^ place`, the first one in front of the point, and an exponent. -/
def exponential (n : Nat) (place : Int) : List Char :=
  let digits := Nat.toDigits 10 n
  let exponent := place + (digits.length - 1 : Nat)
  digits.take 1 ++ (if digits.length ≤ 1 then [] else '.' :: digits.drop 1) ++
    'e' :: ((if exponent < 0 then ['-'] else []) ++ Nat.toDigits 10 exponent.natAbs)

/-- The shortest digits of the magnitude of a finite number, without trailing zeros. -/
def shortestText (x : Binary64) : List Char :=
  if x.magnitude = 0 then exponential 0 0
  else
    let stripped := trailingZeros x.shortest.coefficient
    exponential (x.shortest.coefficient / 10 ^ stripped) (x.shortest.exponent + stripped)

/-- The decimal with all zeros in front of the point written out. -/
def writtenOut (d : Decimal) : Decimal :=
  if d.scale.toInt < 0 then ⟨d.unscaled * 10 ^ d.scale.toInt.natAbs, .zero⟩ else d

/-- The decimal of a finite binary64 number. -/
def ofBinary64? (x : Binary64) : Except Fault (Option Decimal) :=
  if !x.isFinite then .ok none
  else do
    match ← ofLiteral? (shortestText x) with
    | none => return none
    | some d =>
      let d := writtenOut d.normalized
      return some (if x.negative then d.neg else d)

/-- The decimal of the result of an operation, which has to be finite. -/
def ofResult (operation : String) (x : Binary64) : Arithmetic Decimal := do
  match ← ofBinary64? x with
  | some d => return d
  | none => fail (.notFinite operation)

/-- The exponent behind `e`, with a sign if it is negative. -/
theorem exponent_unsigned (e : ℤ) :
    Exponent ('e' :: ((if e < 0 then ['-'] else []) ++ Nat.toDigits 10 e.natAbs)) e := by
  have hne : Nat.toDigits 10 e.natAbs ≠ [] := Nat.toDigits_ne_nil
  have hd := allDigits_toDigits e.natAbs
  have hv := ofDigits_toDigits e.natAbs
  by_cases he : e < 0
  · rw [if_pos he]
    have h := Exponent.minus (Or.inl rfl) hne hd
    rwa [hv, show -(e.natAbs : ℤ) = e by omega] at h
  · rw [if_neg he]
    have h := Exponent.unsigned (Or.inl rfl) hne hd
    rwa [hv, show (e.natAbs : ℤ) = e by omega] at h

/-- The digits and the place are read back, as far as the exponent fits in 64 bits. -/
theorem ofLiteral?_exponential {n : ℕ} {place : ℤ} {scale : Scale} (hscale : scale.toInt = -place)
    (hfits : -9223372036854775808 ≤ place + (numDigits n - 1 : ℕ) ∧
      place + (numDigits n - 1 : ℕ) ≤ 9223372036854775807) :
    Decimal.ofLiteral? (exponential n place) = some ⟨n, scale⟩ := by
  obtain ⟨s, hs⟩ := Scale.exists_ofInt? hfits
  have hliteral := Literal.mk (mantissa_scientific n)
    (exponent_unsigned (place + (numDigits n - 1 : ℕ)))
  have hplaces : ((numDigits n - 1 : ℕ) : ℤ) - (place + (numDigits n - 1 : ℕ)) = scale.toInt := by
    omega
  have hread := ofLiteral?_of_literal hliteral
  rw [hs, Option.bind_some, List.length_drop, List.take_append_drop, ofDigits_toDigits] at hread
  exact hread.trans (by rw [← numDigits, hplaces, Scale.ofInt?_toInt, Option.map_some])

/-- What is read from the text of a number other than zero. -/
theorem ofLiteral?_shortestText {x : Binary64} (h : x.magnitude ≠ 0) : ∃ scale : Scale,
    scale.toInt = -(x.shortest.exponent + trailingZeros x.shortest.coefficient) ∧
    Decimal.ofLiteral? (shortestText x) =
      some ⟨(x.shortest.coefficient / 10 ^ trailingZeros x.shortest.coefficient : ℕ), scale⟩ := by
  obtain ⟨hpos, hdigits, hlow, hup⟩ := shortest_range h (k := 1100) le_rfl
  have htext : shortestText x = _ := if_neg h
  rw [htext]
  generalize x.shortest.coefficient = c at *
  generalize x.shortest.exponent = e at *
  -- neither the digits nor the zeros behind them are many
  have hzeros : trailingZeros c < numDigits c := by
    refine not_le.mp fun hle => ?_
    have hlt := (numDigits_le_iff ((numDigits_pos c).trans_le hle)).mp hle
    exact absurd (Nat.le_of_dvd hpos (pow_trailingZeros_dvd c)) (not_le.mpr hlt)
  have hkept : numDigits (c / 10 ^ trailingZeros c) ≤ numDigits c :=
    (numDigits_le_iff (numDigits_pos c)).mpr
      ((Nat.div_le_self _ _).trans_lt ((numDigits_le_iff (numDigits_pos c)).mp le_rfl))
  have hfits : Scale.Fits (-(e + trailingZeros c)) := by
    unfold Scale.Fits
    omega
  obtain ⟨scale, hscale⟩ := Scale.exists_ofInt? hfits
  have hscale := Scale.toInt_of_ofInt? hscale
  exact ⟨scale, hscale, ofLiteral?_exponential hscale (by omega)⟩

/-- The digits with a sign and with zeros written out as far as the place asks for them. -/
theorem writtenOut_eq (negative : Bool) (c : ℕ) {place : ℤ} {scale : Scale}
    (hscale : scale.toInt = -place) :
    some (if negative then (writtenOut ⟨c, scale⟩).neg else writtenOut ⟨c, scale⟩) =
      (Scale.ofInt? (-min place 0)).map fun scale =>
        ⟨signed negative (c * 10 ^ place.toNat), scale⟩ := by
  unfold writtenOut
  by_cases hplace : 0 < place
  · have hneg : scale.toInt < 0 := by omega
    have hnat : scale.toInt.natAbs = place.toNat := by omega
    have hzero : Scale.ofInt? (-min place 0) = some .zero := by
      rw [min_eq_right hplace.le]
      exact Scale.ofInt?_toInt .zero
    rw [if_pos hneg, hnat, hzero]
    cases negative <;> rfl
  · have hneg : ¬scale.toInt < 0 := by omega
    have hnat : place.toNat = 0 := by omega
    have hsame : Scale.ofInt? (-min place 0) = some scale := by
      rw [min_eq_left (not_lt.mp hplace), ← hscale, Scale.ofInt?_toInt]
    rw [if_neg hneg, hnat, hsame, pow_zero, mul_one]
    cases negative <;> rfl

/-- **The decimal of a binary64 number** is read without faults. -/
theorem ofBinary64?_eq (x : Binary64) : ofBinary64? x = .ok (Decimal.ofBinary64? x) := by
  by_cases hfinite : (!x.isFinite) = true
  · rw [ofBinary64?, Decimal.ofBinary64?, if_pos hfinite, if_pos hfinite]
  by_cases h : x.magnitude = 0
  · have hread : Decimal.ofLiteral? (shortestText x) = some Decimal.zero := by
      rw [shortestText, if_pos h]
      have hzero : Scale.zero.toInt = -0 := rfl
      exact ofLiteral?_exponential hzero (by decide)
    rw [ofBinary64?, if_neg hfinite, ofLiteral?_eq, ok_bind, hread, Decimal.ofBinary64?,
      if_neg hfinite, if_pos h]
    cases x.negative <;> rfl
  · obtain ⟨scale, hscale, hread⟩ := ofLiteral?_shortestText h
    have hpos := (shortest_range h (k := 1100) le_rfl).1
    have hne : x.shortest.coefficient / 10 ^ trailingZeros x.shortest.coefficient ≠ 0 :=
      (Nat.div_pos (Nat.le_of_dvd hpos (pow_trailingZeros_dvd _)) (by positivity)).ne'
    have hnormal := normalized_of_trailingZeros scale hne (trailingZeros_div hpos.ne')
    have hsigned := writtenOut_eq x.negative
      (x.shortest.coefficient / 10 ^ trailingZeros x.shortest.coefficient) hscale
    rw [ofBinary64?, if_neg hfinite, ofLiteral?_eq, ok_bind, hread, Decimal.ofBinary64?,
      if_neg hfinite, if_neg h, ← hsigned]
    show Except.ok (some (if x.negative then (writtenOut (normalized _)).neg
      else writtenOut (normalized _))) = _
    rw [hnormal]

theorem ofResult_eq (operation : String) (x : Binary64) :
    ofResult operation x = liftM (Decimal.ofResult operation x) := by
  unfold ofResult Decimal.ofResult
  rw [ofBinary64?_eq, liftM_ok, pure_bind]
  cases Decimal.ofBinary64? x <;> rfl

end Guarded

end Reckon
