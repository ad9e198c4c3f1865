import Reckon.Digits

/-!
# Decimals

A decimal is an integer `unscaled` and a `scale`: its value is `unscaled * 10 ^ (-scale)`. The
scale is visible, `1.0` and `1.00` are two decimals of one value, and it is a signed 64-bit
number; `Scale.ofInt?` is the only way an operation gets a new one. Follows `Decimal` with its
`new`, `parts`, `scale`, `is_zero` and `abs` (specification, 3).

Results:
* `Scale.ofInt?_toInt`, `Scale.toInt_of_ofInt?`: a 64-bit number and its scale are the same thing.
* `Scale.isSome_ofInt?`: which numbers are scales.
-/

namespace Reckon

/-- How many digits stand after the point. Negative scales are those of multiples of ten. -/
structure Scale where
  toInt : Int
  lower : -9223372036854775808 ≤ toInt
  upper : toInt ≤ 9223372036854775807
deriving DecidableEq

namespace Scale

instance : Coe Scale Int := ⟨Scale.toInt⟩

/-- The least scale. -/
def least : Scale := ⟨-9223372036854775808, by decide, by decide⟩

/-- The scale of integers as they are written out. -/
def zero : Scale := ⟨0, by decide, by decide⟩

/-- The scale with this count of digits, if it fits in 64 bits. -/
def ofInt? (n : Int) : Option Scale :=
  if h : -9223372036854775808 ≤ n ∧ n ≤ 9223372036854775807 then some ⟨n, h.1, h.2⟩ else none

/-- The larger of two scales. -/
def max (s t : Scale) : Scale := if s.toInt ≤ t.toInt then t else s

@[ext] theorem ext {s t : Scale} (h : s.toInt = t.toInt) : s = t := by
  cases s; cases t; cases h; rfl

@[simp] theorem toInt_zero : zero.toInt = 0 := rfl

@[simp] theorem ofInt?_toInt (s : Scale) : ofInt? s.toInt = some s := by
  have hl := s.lower
  have hu := s.upper
  rw [ofInt?, dif_pos ⟨hl, hu⟩]

theorem toInt_of_ofInt? {n : Int} {s : Scale} (h : ofInt? n = some s) : s.toInt = n := by
  unfold ofInt? at h
  split at h
  · cases h; rfl
  · cases h

/-- The number fits in 64 bits, as scales do. -/
def Fits (n : Int) : Prop := -9223372036854775808 ≤ n ∧ n ≤ 9223372036854775807

instance (n : Int) : Decidable (Fits n) := inferInstanceAs (Decidable (_ ∧ _))

theorem fits (s : Scale) : Fits s.toInt := ⟨s.lower, s.upper⟩

theorem isSome_ofInt? {n : Int} : (ofInt? n).isSome = true ↔ Fits n := by
  unfold ofInt?
  split
  · rename_i h
    exact iff_of_true rfl h
  · rename_i h
    exact iff_of_false Bool.false_ne_true h

theorem exists_ofInt? {n : Int} (h : Fits n) : ∃ s, ofInt? n = some s :=
  Option.isSome_iff_exists.mp (isSome_ofInt?.mpr h)

theorem ofInt?_eq_none {n : Int} : ofInt? n = none ↔ ¬Fits n := by
  rw [← isSome_ofInt?, Option.not_isSome_iff_eq_none]

theorem toInt_max (s t : Scale) : (max s t).toInt = if s.toInt ≤ t.toInt then t.toInt else s.toInt := by
  unfold max
  split <;> rfl

end Scale

/-- The number `unscaled * 10 ^ (-scale)`, together with the scale it is written at. -/
structure Decimal where
  unscaled : Int
  scale : Scale
deriving DecidableEq

namespace Decimal

/-- An integer, at scale 0. -/
def ofInt (n : Int) : Decimal := ⟨n, .zero⟩

/-- The neutral element of sums. -/
def zero : Decimal := ofInt 0

/-- The neutral element of products. -/
def one : Decimal := ofInt 1

/-- A truth value as a number. -/
def ofBool (b : Bool) : Decimal := if b then one else zero

/-- Whether the value is zero, at any scale. -/
def isZero (d : Decimal) : Bool := d.unscaled = 0

/-- The same digits with the other sign. -/
def neg (d : Decimal) : Decimal := ⟨-d.unscaled, d.scale⟩

/-- The same digits without a sign. -/
def abs (d : Decimal) : Decimal := ⟨d.unscaled.natAbs, d.scale⟩

/-- The integer with this sign and magnitude. -/
def signed (negative : Bool) (magnitude : Nat) : Int := if negative then -magnitude else magnitude

/-- How many digits the unscaled integer has, its sign aside. -/
def digits (d : Decimal) : Nat := numDigits d.unscaled.natAbs

end Decimal

end Reckon
