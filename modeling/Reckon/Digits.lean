import Reckon.Power

/-!
# Digits

Natural numbers written in a radix. `ofDigits` reads a run of digits, `Nat.toDigits` writes one,
and `numDigits` counts the decimal digits of a number, zero having one. `integerOfDigits?` reads
a whole integer with a sign and with `_` as a separator. Follows `digit_count` and `from_radix`.

Results:
* `numDigits_pos`, `numDigits_le_iff`: the digit count is the least positive exponent of a power
  of ten above the number.
-/

namespace Reckon

/-- The value of a digit; the letters of either case stand for ten and above. -/
def digitOf? (c : Char) : Option Nat :=
  if '0' ≤ c ∧ c ≤ '9' then some (c.toNat - 48)
  else if 'a' ≤ c ∧ c ≤ 'z' then some (c.toNat - 87)
  else if 'A' ≤ c ∧ c ≤ 'Z' then some (c.toNat - 55)
  else none

/-- Whether `c` is a digit in the given radix. -/
def isDigitIn (radix : Nat) (c : Char) : Bool :=
  match digitOf? c with
  | some v => v < radix
  | none => false

/-- The number that a run of digits stands for, most significant digit first. -/
def ofDigits (radix : Nat) (digits : List Char) : Nat :=
  digits.foldl (fun n c => n * radix + (digitOf? c).getD 0) 0

/-- How many decimal digits it takes to write `n`. -/
def numDigits (n : Nat) : Nat := (Nat.toDigits 10 n).length

theorem numDigits_pos (n : Nat) : 0 < numDigits n := Nat.length_toDigits_pos

theorem numDigits_le_iff {n k : Nat} (hk : 0 < k) : numDigits n ≤ k ↔ n < 10 ^ k :=
  Nat.length_toDigits_le_iff (by decide) hk

/-- An integer in the given radix: one sign at most, then digits. A `_` may stand anywhere
after the first digit. -/
def integerOfDigits? (radix : Nat) (text : List Char) : Option Int :=
  match text with
  | '-' :: digits => (magnitude? digits).map fun n => -(n : Int)
  | '+' :: digits => (magnitude? digits).map Int.ofNat
  | digits => (magnitude? digits).map Int.ofNat
where
  /-- The digits without their separators. -/
  magnitude? (text : List Char) : Option Nat :=
    let digits := text.filter (· ≠ '_')
    if text.head? ≠ some '_' ∧ digits ≠ [] ∧ digits.all (isDigitIn radix) then
      some (ofDigits radix digits)
    else
      none

end Reckon
