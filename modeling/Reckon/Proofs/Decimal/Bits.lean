import Mathlib.Data.Int.Bitwise
import Reckon.Decimal.Bits
import Reckon.Proofs.Decimal.Integral

/-!
# Bit operations on integers

Bit `k` of an integer in two's complement is `Int.testBit n k`: of a negative integer it is the
contrary of that bit of `-n - 1`, so beyond some place all bits are the same. An integer is
determined by its bits. The operations combine corresponding bits, and an operation on a list of
integers, from left to right, makes one bit of each list of corresponding bits (`Combines`), in
which the order plays no part.

Results:
* `eq_of_testBit_eq`: integers with the same bits are equal.
* `combines_and`, `combines_or`, `combines_xor`, `testBit_not`: what the operations do to bits.
* `not_not`, `not_and`, `not_or`: the laws of the complement.
* `foldBits_of_integers`, `invertBits_of_integer`: the operations on decimals.
-/

namespace Reckon

namespace Bits

variable {m n : ℤ}

/-- Far beyond its digits a nonnegative integer has zeros and a negative one has ones. -/
theorem exists_testBit_ne (i j : ℕ) : ∃ k, (Int.ofNat i).testBit k ≠ (Int.negSucc j).testBit k := by
  have hfar {i k : ℕ} (h : i ≤ k) : i.testBit k = false :=
    Nat.testBit_lt_two_pow (Nat.lt_two_pow_self.trans_le (Nat.pow_le_pow_right two_pos h))
  refine ⟨i + j, ?_⟩
  simp only [Int.testBit, hfar (Nat.le_add_right i j), hfar (Nat.le_add_left j i)]
  decide

/-- **An integer is determined by its bits.** -/
theorem eq_of_testBit_eq (h : ∀ k, m.testBit k = n.testBit k) : m = n := by
  cases m with
  | ofNat i =>
    cases n with
    | ofNat j => exact congrArg Int.ofNat (Nat.eq_of_testBit_eq h)
    | negSucc j =>
      obtain ⟨k, hk⟩ := exists_testBit_ne i j
      exact absurd (h k) hk
  | negSucc i =>
    cases n with
    | ofNat j =>
      obtain ⟨k, hk⟩ := exists_testBit_ne j i
      exact absurd (h k).symm hk
    | negSucc j => exact congrArg Int.negSucc (Nat.eq_of_testBit_eq fun k => Bool.not_inj (h k))

/-! ## Pairs of bits -/

theorem testBit_and (m n : ℤ) (k : ℕ) :
    (and m n).testBit k = (m.testBit k && n.testBit k) := by
  cases m <;> cases n <;> simp only [and, Int.testBit, Nat.testBit_xor, Nat.testBit_and,
    Nat.testBit_or] <;> grind

theorem testBit_or (m n : ℤ) (k : ℕ) :
    (or m n).testBit k = (m.testBit k || n.testBit k) := by
  cases m <;> cases n <;> simp only [or, Int.testBit, Nat.testBit_xor, Nat.testBit_and,
    Nat.testBit_or] <;> grind

theorem testBit_xor (m n : ℤ) (k : ℕ) :
    (xor m n).testBit k = (m.testBit k ^^ n.testBit k) := by
  cases m <;> cases n <;> simp only [xor, Int.testBit, Nat.testBit_xor] <;> grind

theorem testBit_not (n : ℤ) (k : ℕ) : (not n).testBit k = !n.testBit k := by
  cases n with
  | ofNat i =>
    have hnot : not (.ofNat i) = .negSucc i := by
      rw [not, Int.negSucc_eq, Int.ofNat_eq_natCast]
      omega
    rw [hnot]
    rfl
  | negSucc i =>
    have hnot : not (.negSucc i) = .ofNat i := by
      rw [not, Int.negSucc_eq, Int.ofNat_eq_natCast]
      omega
    rw [hnot]
    exact (Bool.not_not _).symm

theorem not_not (n : ℤ) : not (not n) = n := by
  unfold not
  omega

/-- **De Morgan's law** for conjunctions. -/
theorem not_and (m n : ℤ) : not (and m n) = or (not m) (not n) :=
  eq_of_testBit_eq fun k => by
    simp only [testBit_not, testBit_and, testBit_or, Bool.not_and]

/-- **De Morgan's law** for disjunctions. -/
theorem not_or (m n : ℤ) : not (or m n) = and (not m) (not n) :=
  eq_of_testBit_eq fun k => by
    simp only [testBit_not, testBit_and, testBit_or, Bool.not_or]

/-! ## Lists of bits -/

/-- The operation, from left to right on a list of integers, makes this of each list of
corresponding bits, whatever their order. -/
structure Combines (combine : ℤ → ℤ → ℤ) (onBits : List Bool → Bool) : Prop where
  testBit : ∀ (ns : List ℤ) (n : ℤ) (k : ℕ),
    (ns.foldl combine n).testBit k = onBits ((n :: ns).map (·.testBit k))
  perm_bits : ∀ bits bits' : List Bool, bits.Perm bits' → onBits bits = onBits bits'

theorem combines_and : Combines and (·.all id) where
  testBit ns n k := by
    induction ns generalizing n with
    | nil => simp
    | cons m rest ih =>
      rw [List.foldl_cons, ih, List.map_cons, List.all_cons, testBit_and]
      simp [Bool.and_assoc]
  perm_bits _ _ h := h.all_eq

theorem combines_or : Combines or (·.any id) where
  testBit ns n k := by
    induction ns generalizing n with
    | nil => simp
    | cons m rest ih =>
      rw [List.foldl_cons, ih, List.map_cons, List.any_cons, testBit_or]
      simp [Bool.or_assoc]
  perm_bits _ _ h := h.any_eq

/-- The exclusive disjunction of many bits says whether an odd number of them is set. -/
theorem combines_xor : Combines xor fun bits => decide (Odd (bits.count true)) where
  testBit ns n k := by
    induction ns generalizing n with
    | nil => cases h : n.testBit k <;> simp [h]
    | cons m rest ih =>
      rw [List.foldl_cons, ih, List.map_cons, testBit_xor]
      cases hn : n.testBit k <;> cases hm : m.testBit k <;>
        simp [hn, hm, Nat.odd_add_one, parity_simps]
  perm_bits _ _ h := by simp only [h.count_eq]

end Bits

namespace Decimal

variable {d : Decimal} {ds : List Decimal} {n : ℤ} {ns : List ℤ}

theorem mapM_integerOperand (operation : String) (h : List.Forall₂ IsInteger ds ns) :
    ds.mapM (integerOperand operation) = .ok ns := by
  induction h with
  | nil => rfl
  | cons hd _ ih =>
    rw [List.mapM_cons, integerOperand_eq_ok_iff.mpr hd, ok_bind, ih]
    rfl

/-- What a bit operation makes of integers. -/
theorem foldBits_of_integers (operation : String) (combine : ℤ → ℤ → ℤ) (hd : d.IsInteger n)
    (hds : List.Forall₂ IsInteger ds ns) :
    foldBits operation combine d ds = .ok (ofInt (ns.foldl combine n)) := by
  rw [foldBits, integerOperand_eq_ok_iff.mpr hd, ok_bind, mapM_integerOperand operation hds]
  rfl

theorem invertBits_of_integer (hd : d.IsInteger n) : d.invertBits = .ok (ofInt (-n - 1)) := by
  rw [invertBits, integerOperand_eq_ok_iff.mpr hd]
  rfl

end Decimal

end Reckon
