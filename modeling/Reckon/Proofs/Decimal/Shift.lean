import Mathlib.Data.Rat.Floor
import Reckon.Evaluation.Operator
import Reckon.Proofs.Decimal.Integral

/-!
# Shifts

A shift multiplies an integer by a power of two and drops what falls below the point. The direction
is that of the operator for a positive amount and the other one for a negative amount, so a shift
by `n` to the left and a shift by `-n` to the right are the same. What is shifted to the left comes
back unchanged, and shifts in one direction add up.

Results:
* `shiftLeft_eq_floor`, `shiftRight_eq_floor`: the shifts of integers as products that are rounded
  down.
* `shift_eq_ok_iff`, `shift_error`: which operands can be shifted, and why others are refused.
* `shift_floor`: the operators, what ties them together, and when they fail.
-/

namespace Reckon

namespace Decimal

variable {x y z w : Decimal} {a m n : ℤ} {operation : String} {left : Bool}

/-! ## Integers -/

theorem shiftLeft_eq_floor (a : ℤ) (k : ℕ) : a <<< k = ⌊(a : ℚ) * 2 ^ (k : ℤ)⌋ := by
  have hproduct : (a : ℚ) * 2 ^ (k : ℤ) = (a * 2 ^ k : ℤ) := by
    rw [zpow_natCast]
    push_cast
    rfl
  rw [Int.shiftLeft_eq, hproduct, Int.floor_intCast]

theorem shiftRight_eq_floor (a : ℤ) (k : ℕ) : a >>> k = ⌊(a : ℚ) * 2 ^ (-(k : ℤ))⌋ := by
  have hquotient : (a : ℚ) * 2 ^ (-(k : ℤ)) = a / (2 ^ k : ℕ) := by
    rw [zpow_neg, zpow_natCast, div_eq_mul_inv]
    push_cast
    rfl
  rw [Int.shiftRight_eq_div_pow, hquotient, Rat.floor_intCast_div_natCast]

/-! ## Decimals -/

/-- What is made of operands that can be shifted. -/
theorem shift_eq (hx : x.IsInteger a) (hy : y.IsInteger n) (hn : n.natAbs < 2 ^ 32) :
    shift operation left x y =
      .ok (ofInt (if left != (n < 0 : Bool) then a <<< n.natAbs else a >>> n.natAbs)) := by
  rw [shift, integerOperand_eq_ok_iff.mpr hx, ok_bind, integerOperand_eq_ok_iff.mpr hy, ok_bind,
    checkMagnitude, if_pos hn]
  rfl

/-- **Shifts are rounded products.** -/
theorem shift_eq_floor (hx : x.IsInteger a) (hy : y.IsInteger n) (hn : n.natAbs < 2 ^ 32) :
    shift operation left x y = .ok (ofInt ⌊(a : ℚ) * 2 ^ (if left then n else -n)⌋) := by
  rw [shift_eq hx hy hn]
  -- the sign of the amount and the operator both turn the direction
  rcases lt_or_ge n 0 with hneg | hpos
  · have habs : (n.natAbs : ℤ) = -n := by omega
    cases left <;> simp [hneg, shiftLeft_eq_floor, shiftRight_eq_floor, habs]
  · have habs : (n.natAbs : ℤ) = n := by omega
    cases left <;> simp [not_lt.mpr hpos, shiftLeft_eq_floor, shiftRight_eq_floor, habs]

/-- A shift by a natural number goes in the direction of the operator. -/
theorem shift_of_nonneg (hx : x.IsInteger a) (hy : y.IsInteger n) (hn : n.natAbs < 2 ^ 32)
    (hpos : 0 ≤ n) : shift operation left x y =
      .ok (ofInt (if left then a <<< n.toNat else a >>> n.toNat)) := by
  have habs : n.natAbs = n.toNat := by omega
  rw [shift_eq hx hy hn, decide_eq_false (not_lt.mpr hpos), Bool.bne_false, habs]

theorem shift_eq_ok_iff : (∃ r, shift operation left x y = .ok r) ↔
    ∃ a n, x.IsInteger a ∧ y.IsInteger n ∧ n.natAbs < 2 ^ 32 := by
  constructor
  · rintro ⟨r, h⟩
    obtain ⟨a, ha, h⟩ := bind_ok h
    obtain ⟨n, hn, h⟩ := bind_ok h
    obtain ⟨bits, hbits, -⟩ := bind_ok h
    refine ⟨a, n, integerOperand_eq_ok_iff.mp ha, integerOperand_eq_ok_iff.mp hn, ?_⟩
    unfold checkMagnitude at hbits
    split_ifs at hbits with hlt
    exact hlt
  · rintro ⟨a, n, hx, hy, hn⟩
    exact ⟨_, shift_eq hx hy hn⟩

/-- Why a shift is refused. -/
inductive ShiftRefused (operation : String) (x y : Decimal) : ArithmeticError → Prop
  /-- An operand is no integer. -/
  | notIntegral {d : Decimal} (hd : d = x ∨ d = y) (h : ¬∃ n : ℤ, d.value = n) :
      ShiftRefused operation x y (.notIntegral operation d)
  /-- An operand cannot be written out. -/
  | tooLong {d : Decimal} (hd : d = x ∨ d = y) (h : d.OutOfReach .zero) :
      ShiftRefused operation x y .scaleOverflow
  /-- The amount has more than 32 bits. -/
  | tooFar {n : ℤ} (h : y.IsInteger n) (hn : 2 ^ 32 ≤ n.natAbs) :
      ShiftRefused operation x y (.outOfRange "shift amount" n)

theorem shift_error {error : ArithmeticError} (h : shift operation left x y = .error error) :
    ShiftRefused operation x y error := by
  have hoperand {d : Decimal} (hd : d = x ∨ d = y) (h : d.integerOperand operation = .error error) :
      ShiftRefused operation x y error := by
    obtain ⟨rfl, hreach⟩ | ⟨rfl, hnot⟩ := integerOperand_error h
    · exact .tooLong hd hreach
    · exact .notIntegral hd hnot
  obtain h | ⟨a, -, h⟩ := bind_error h
  · exact hoperand (.inl rfl) h
  obtain h | ⟨n, hn, h⟩ := bind_error h
  · exact hoperand (.inr rfl) h
  obtain h | ⟨bits, -, h⟩ := bind_error h
  · unfold checkMagnitude at h
    split_ifs at h with hlt
    cases h
    exact .tooFar (integerOperand_eq_ok_iff.mp hn) (not_lt.mp hlt)
  · cases h

/-- Operands that are no integers, or an amount of more than 32 bits, make a shift fail. -/
theorem shift_error_of (h : (¬∃ a : ℤ, x.value = a) ∨ (¬∃ n : ℤ, y.value = n) ∨
      ∃ n : ℤ, y.value = n ∧ 2 ^ 32 ≤ n.natAbs) :
    ∃ error, shift operation left x y = .error error ∧ ShiftRefused operation x y error := by
  cases hshift : shift operation left x y with
  | error error => exact ⟨error, rfl, shift_error hshift⟩
  | ok r =>
    obtain ⟨a, n, hx, hy, hn⟩ := shift_eq_ok_iff.mp ⟨r, hshift⟩
    rcases h with h | h | ⟨k, hk, hlarge⟩
    · exact absurd ⟨a, hx.1⟩ h
    · exact absurd ⟨n, hy.1⟩ h
    · have hnk : (n : ℚ) = k := hy.1.symm.trans hk
      rw [Int.cast_injective hnk] at hn
      omega

/-- What is shifted to the left comes back unchanged. -/
theorem shiftRight_shiftLeft (hx : x.IsInteger a) (hy : y.IsInteger n) (hn : n.natAbs < 2 ^ 32)
    (hpos : 0 ≤ n) (operation operation' : String) :
    (shift operation true x y >>= fun r => shift operation' false r y) = .ok (ofInt a) := by
  rw [shift_of_nonneg hx hy hn hpos, ok_bind,
    shift_of_nonneg (isInteger_ofInt _) hy hn hpos]
  simp only [if_true, Bool.false_eq_true, if_false, Int.shiftLeft_shiftRight_cancel]

/-- Shifts in one direction add up. -/
theorem shift_shift (hx : x.IsInteger a) (hy : y.IsInteger n) (hz : z.IsInteger m)
    (hw : w.IsInteger (n + m)) (hn : 0 ≤ n) (hm : 0 ≤ m) (hsum : n + m ≤ 2 ^ 32 - 1) :
    (shift operation left x y >>= fun r => shift operation left r z) =
      shift operation left x w := by
  have hnat : (n + m).toNat = n.toNat + m.toNat := Int.toNat_add hn hm
  rw [shift_of_nonneg hx hy (by omega) hn, ok_bind,
    shift_of_nonneg (isInteger_ofInt _) hz (by omega) hm,
    shift_of_nonneg hx hw (by omega) (by omega), hnat, Int.shiftLeft_add, Int.shiftRight_add]
  cases left <;> rfl

end Decimal

namespace BinaryOp

open Decimal

/-- The shifts with the names that their errors give them. -/
def shifts : List (BinaryOp × String) := [(shiftLeft, "'<<'"), (shiftRight, "'>>'")]

theorem eval_shifts {op : BinaryOp} {name : String} (h : (op, name) ∈ shifts) :
    ∃ left, ∀ x y, op.eval x y = shift name left x y := by
  simp only [shifts, List.mem_cons, Prod.mk.injEq, List.not_mem_nil, or_false] at h
  obtain ⟨rfl, rfl⟩ | ⟨rfl, rfl⟩ := h
  · exact ⟨true, fun _ _ => rfl⟩
  · exact ⟨false, fun _ _ => rfl⟩

/-- **Shifts.** An integer shifted to the left by an integer of at most 32 bits is the product with
that power of two, and one shifted to the right the quotient, both rounded down and written out; the
operands may have any scale at which they can be written out. So a shift to the left by `n` is one
to the right by `-n`, a shift to the left can be taken back, and shifts in one direction add up.
Anything else is refused, with an error that says why. -/
theorem shift_floor (x y : Decimal) :
    (∀ a n : ℤ, x.IsInteger a → y.IsInteger n → |n| ≤ 2 ^ 32 - 1 →
      shiftLeft.eval x y = .ok (ofInt ⌊(a : ℚ) * 2 ^ n⌋) ∧
      shiftRight.eval x y = .ok (ofInt ⌊(a : ℚ) * 2 ^ (-n)⌋) ∧
      (∀ z : Decimal, z.IsInteger (-n) → shiftLeft.eval x y = shiftRight.eval x z) ∧
      (0 ≤ n → (shiftLeft.eval x y >>= fun r => shiftRight.eval r y) = .ok (ofInt a)) ∧
      ∀ op name, (op, name) ∈ shifts → ∀ (z w : Decimal) (m : ℤ), z.IsInteger m →
        w.IsInteger (n + m) → 0 ≤ n → 0 ≤ m → n + m ≤ 2 ^ 32 - 1 →
        (op.eval x y >>= fun r => op.eval r z) = op.eval x w) ∧
    ∀ op name, (op, name) ∈ shifts →
      ((∃ r, op.eval x y = .ok r) ↔
        ∃ a n : ℤ, x.IsInteger a ∧ y.IsInteger n ∧ |n| ≤ 2 ^ 32 - 1) ∧
      ((¬∃ a : ℤ, x.value = a) ∨ (¬∃ n : ℤ, y.value = n) ∨
          (∃ n : ℤ, y.value = n ∧ |n| > 2 ^ 32 - 1) →
        ∃ error, op.eval x y = .error error ∧ ShiftRefused name x y error) := by
  have hbits (n : ℤ) : |n| ≤ 2 ^ 32 - 1 ↔ n.natAbs < 2 ^ 32 := by
    rw [Int.abs_eq_natAbs]
    omega
  have hbeyond (n : ℤ) : |n| > 2 ^ 32 - 1 ↔ 2 ^ 32 ≤ n.natAbs := by
    rw [Int.abs_eq_natAbs]
    omega
  simp only [hbits, hbeyond]
  constructor
  · intro a n hx hy hn
    refine ⟨shift_eq_floor hx hy hn, shift_eq_floor hx hy hn, ?turned, ?back, ?sum⟩
    case turned =>
      intro z hz
      have hn' : (-n).natAbs < 2 ^ 32 := by rwa [Int.natAbs_neg]
      have hright : shiftRight.eval x z = .ok (ofInt ⌊(a : ℚ) * 2 ^ (-(-n))⌋) :=
        shift_eq_floor hx hz hn'
      rw [hright, neg_neg]
      exact shift_eq_floor hx hy hn
    case back =>
      intro hpos
      exact shiftRight_shiftLeft hx hy hn hpos _ _
    case sum =>
      intro op name hop z w m hz hw hnpos hmpos hsum
      obtain ⟨left, heval⟩ := eval_shifts hop
      simp only [heval]
      exact shift_shift hx hy hz hw hnpos hmpos hsum
  · intro op name hop
    obtain ⟨left, heval⟩ := eval_shifts hop
    rw [heval]
    exact ⟨shift_eq_ok_iff, shift_error_of⟩

/-- A negative value is rounded down, not toward zero; a half is no amount, and one with more than
32 bits is refused before anything is written out. -/
theorem shift_floor_negative :
    let minusFive : Decimal := ⟨-500, ⟨2, by decide, by decide⟩⟩
    let unit : Decimal := ⟨10, ⟨1, by decide, by decide⟩⟩
    let half : Decimal := ⟨5, ⟨1, by decide, by decide⟩⟩
    minusFive.IsInteger (-5) ∧ unit.IsInteger 1 ∧
      shiftRight.eval minusFive unit = .ok (ofInt (-3)) ∧
      shiftLeft.eval minusFive (ofInt (-2)) = .ok (ofInt (-2)) ∧
      shiftLeft.eval minusFive (ofInt (-2)) = shiftRight.eval minusFive (ofInt 2) ∧
      (shiftLeft.eval minusFive unit >>= fun r => shiftRight.eval r unit) = .ok (ofInt (-5)) ∧
      (shiftRight.eval minusFive unit >>= fun r => shiftRight.eval r unit) =
        shiftRight.eval minusFive (ofInt 2) ∧
      (¬∃ n : ℤ, half.value = n) ∧ (∃ error, shiftLeft.eval minusFive half = .error error) ∧
      ∃ error, shiftRight.eval minusFive (ofInt 4294967296) = .error error := by
  intro minusFive unit half
  have hvalue : minusFive.IsInteger (-5) :=
    isInteger_of_value (by norm_num [minusFive, value]) (by decide)
  have hunit : unit.IsInteger 1 := isInteger_of_value (by norm_num [unit, value]) (by decide)
  have htwo := isInteger_ofInt 2
  have hhalf : ¬∃ n : ℤ, half.value = n := by
    rw [← isIntegral_iff]
    decide
  have hl : (shiftLeft, "'<<'") ∈ shifts := .head _
  have hr : (shiftRight, "'>>'") ∈ shifts := .tail _ (.head _)
  obtain ⟨-, hright, -, hback, hsum⟩ :=
    (shift_floor minusFive unit).1 _ _ hvalue hunit (by norm_num)
  obtain ⟨hleft, -, hturned, -⟩ :=
    (shift_floor minusFive (ofInt (-2))).1 _ _ hvalue (isInteger_ofInt (-2)) (by norm_num)
  obtain ⟨error, herror, -⟩ := ((shift_floor minusFive half).2 _ _ hl).2 (.inr (.inl hhalf))
  obtain ⟨error', herror', -⟩ := ((shift_floor minusFive (ofInt 4294967296)).2 _ _ hr).2
    (.inr (.inr ⟨4294967296, value_ofInt _, by norm_num⟩))
  have hfloor : ⌊((-5 : ℤ) : ℚ) * 2 ^ (-1 : ℤ)⌋ = -3 := by norm_num [Int.floor_eq_iff]
  have hfloor' : ⌊((-5 : ℤ) : ℚ) * 2 ^ (-2 : ℤ)⌋ = -2 := by norm_num [Int.floor_eq_iff]
  rw [hfloor] at hright
  rw [hfloor'] at hleft
  exact ⟨hvalue, hunit, hright, hleft, hturned _ htwo, hback (by decide),
    hsum _ _ hr unit _ 1 hunit htwo (by decide) (by decide) (by decide), hhalf,
    ⟨error, herror⟩, error', herror'⟩

end BinaryOp

end Reckon
