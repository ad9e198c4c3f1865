import Reckon.Proofs.Guarded.Arithmetic
import Reckon.Decimal.Bits
import Reckon.Decimal.Factorial
import Reckon.Decimal.Prime

/-!
# Guarded operations on integers

A decimal is an integer if the power of ten of its scale divides its digits. Only where its scale is
not positive is it brought to scale zero, so no scale is lowered. The test for primes divides by the
small primes and by the number itself, which is greater than one there. A bit operation on several
operands needs one to begin with.

Results:
* `toInteger_eq`, `integerOperand_eq`: the reading of an integer.
* `factorial_eq`, `shift_eq`, `invertBits_eq`: operations on integers.
* `foldBits_eq`: bit operations on at least one operand.
* `isPrime_eq`: no divisor is zero in the test for primes.
-/

namespace Reckon.Guarded

/-! ## Integers -/

/-- Whether the value is an integer. -/
def isIntegral (d : Decimal) : Except Fault Bool :=
  if d.scale.toInt ≤ 0 || d.unscaled = 0 then .ok true
  else if d.digits < d.scale.toInt.natAbs then .ok false
  else do
    let unit ← nonzero (10 ^ d.scale.toInt.natAbs)
    return d.unscaled.natAbs % unit = 0

/-- The value as an integer, or nothing if it is none. -/
def toInteger (d : Decimal) : Arithmetic (Option Int) := do
  if ← isIntegral d then
    if 0 < d.scale.toInt then
      let unit ← nonzero (10 ^ d.scale.toInt.natAbs : Int)
      return some (d.unscaled.tdiv unit)
    else
      let d ← rescale d .zero
      return some d.unscaled
  else return none

/-- The value as an integer, for an operation that takes nothing else. -/
def integerOperand (operation : String) (d : Decimal) : Arithmetic Int := do
  match ← toInteger d with
  | some n => return n
  | none => fail (.notIntegral operation d)

theorem isIntegral_eq (d : Decimal) : isIntegral d = .ok d.isIntegral := by
  have hunit : 10 ^ d.scale.toInt.natAbs ≠ 0 := Nat.pos_iff_ne_zero.mp (Nat.pow_pos (by decide))
  unfold isIntegral Decimal.isIntegral
  split
  · rename_i h
    rw [h, Bool.true_or]
  rename_i h
  have hpos : 0 < d.scale.toInt := by
    rw [Bool.or_eq_true, decide_eq_true_iff, not_or] at h
    omega
  have hnat : d.scale.toInt.toNat = d.scale.toInt.natAbs := by omega
  rw [Bool.eq_false_iff.mpr h, Bool.false_or, hnat]
  split
  · rw [decide_eq_false (by omega), Bool.false_and]
  · rw [nonzero_ok hunit, decide_eq_true (by omega), Bool.true_and]
    rfl

theorem toInteger_eq (d : Decimal) : toInteger d = liftM d.toInteger := by
  have hunit : (10 ^ d.scale.toInt.natAbs : Int) ≠ 0 := by positivity
  unfold toInteger Decimal.toInteger
  rw [isIntegral_eq, liftM_ok, pure_bind]
  split
  swap
  · rfl
  by_cases hpos : 0 < d.scale.toInt
  · have hnat : d.scale.toInt.toNat = d.scale.toInt.natAbs := by omega
    rw [if_pos hpos, if_neg (by omega), nonzero_ok hunit, hnat]
    split
    · rename_i h0
      rw [h0, liftM_ok, pure_bind, Int.zero_tdiv]
      rfl
    · rfl
  · rw [if_neg hpos, if_pos (by omega), rescale_eq (not_lt.mp hpos)]
    cases d.rescale .zero <;> rfl

theorem integerOperand_eq (operation : String) (d : Decimal) :
    integerOperand operation d = liftM (d.integerOperand operation) := by
  unfold integerOperand Decimal.integerOperand
  rw [toInteger_eq]
  refine bind_liftM _ fun n => ?_
  cases n <;> rfl

/-- The factorial of a natural number of at most 64 bits. -/
def factorial (d : Decimal) : Arithmetic Decimal := do
  let n ← integerOperand "factorial" d
  if n < 0 then fail (.negativeFactorial n)
  let n ← Decimal.checkWidth 64 "factorial operand" n
  return .ofInt (factorialOf n)

/-- A bit operation on the given operands, from left to right. There has to be at least one. -/
def foldBits (operation : String) (combine : Int → Int → Int) : List Decimal → Arithmetic Decimal
  | [] => throw .tooFewArguments
  | first :: others => do
    let first ← integerOperand operation first
    let others ← others.mapM (integerOperand operation)
    return .ofInt (others.foldl combine first)

/-- Every bit of an integer inverted. -/
def invertBits (d : Decimal) : Arithmetic Decimal := do
  let n ← integerOperand "BitNot" d
  return .ofInt (Bits.not n)

/-- An integer shifted. -/
def shift (operation : String) (left : Bool) (value amount : Decimal) : Arithmetic Decimal := do
  let n ← integerOperand operation value
  let amount ← integerOperand operation amount
  let bits ← Decimal.checkMagnitude 32 "shift amount" amount
  return .ofInt (if left != (amount < 0 : Bool) then n <<< bits else n >>> bits)

theorem factorial_eq (d : Decimal) : factorial d = liftM d.factorial := by
  unfold factorial Decimal.factorial
  rw [integerOperand_eq]
  refine bind_liftM _ fun n => ?_
  by_cases hn : n < 0
  · rw [if_pos hn, if_pos hn]
    rfl
  · rw [if_neg hn, if_neg hn]
    exact bind_liftM _ fun n => rfl

theorem mapM_eq {f : Decimal → Arithmetic Int} {g : Decimal → Except ArithmeticError Int}
    (h : ∀ d, f d = liftM (g d)) (ds : List Decimal) : ds.mapM f = liftM (ds.mapM g) := by
  induction ds with
  | nil => rfl
  | cons d rest ih =>
    rw [List.mapM_cons, List.mapM_cons, h d, ih]
    exact bind_liftM _ fun n => bind_liftM _ fun ns => rfl

theorem foldBits_eq (operation : String) (combine : Int → Int → Int) (first : Decimal)
    (others : List Decimal) : foldBits operation combine (first :: others) =
      liftM (Decimal.foldBits operation combine first others) := by
  rw [foldBits, Decimal.foldBits, integerOperand_eq, mapM_eq (integerOperand_eq operation)]
  exact bind_liftM _ fun n => bind_liftM _ fun ns => rfl

theorem invertBits_eq (d : Decimal) : invertBits d = liftM d.invertBits := by
  unfold invertBits Decimal.invertBits
  rw [integerOperand_eq]
  exact bind_liftM _ fun n => rfl

theorem shift_eq (operation : String) (left : Bool) (value amount : Decimal) :
    shift operation left value amount = liftM (Decimal.shift operation left value amount) := by
  unfold shift Decimal.shift
  simp only [integerOperand_eq]
  exact bind_liftM _ fun n => bind_liftM _ fun k => bind_liftM _ fun bits => rfl

/-! ## Primes -/

/-- A power modulo `n`. -/
def powMod (n base exponent : Nat) : Except Fault Nat := do
  return Prime.powMod (← nonzero n) base exponent

/-- Whether one of the next `count` squares after `x` is `-1` modulo `n`. -/
def reachesMinusOne (n : Nat) : Nat → Nat → Except Fault Bool
  | 0, _ => .ok false
  | count + 1, x => do
    let square := x * x % (← nonzero n)
    if square = n - 1 then return true else reachesMinusOne n count square

/-- Whether the base says nothing against `n` being prime. -/
def passes (n base : Nat) : Except Fault Bool := do
  let (rounds, odd) := Prime.splitTwos (n - 1)
  let x ← powMod n base odd
  if x = 1 ∨ x = n - 1 then return true else reachesMinusOne n (rounds - 1) x

/-- Whether `n` is prime, if one of these small primes decides it. -/
def trial (n : Nat) : List Nat → Except Fault (Option Bool)
  | [] => .ok none
  | p :: rest =>
    if n = p then .ok (some true)
    else do
      if n % (← nonzero p) = 0 then return some false else trial n rest

/-- Whether `n` passes the test for primes. -/
def test (n : Nat) : Except Fault Bool :=
  if n < 2 then .ok false
  else do
    match ← trial n Prime.bases with
    | some answer => return answer
    | none => Prime.bases.allM (passes n)

/-- One if the magnitude of an integer passes the test for primes, else zero. -/
def isPrime (d : Decimal) : Arithmetic Decimal := do
  let n ← integerOperand "is_prime" d
  return .ofBool (← test n.natAbs)

variable {n : Nat}

theorem reachesMinusOne_eq (hn : n ≠ 0) (count x : Nat) :
    reachesMinusOne n count x = .ok (Prime.reachesMinusOne n count x) := by
  induction count generalizing x with
  | zero => rfl
  | succ count ih =>
    rw [reachesMinusOne, nonzero_ok hn, ok_bind, Prime.reachesMinusOne]
    simp only [ih]
    split
    · rename_i h
      rw [decide_eq_true h]
      rfl
    · rename_i h
      rw [decide_eq_false h, Bool.false_or]

theorem passes_eq (hn : n ≠ 0) (base : Nat) : passes n base = .ok (Prime.passes n base) := by
  unfold passes Prime.passes powMod
  simp only [nonzero_ok hn, ok_bind, reachesMinusOne_eq hn]
  generalize Prime.powMod n base _ = x
  rw [pure_bind]
  split
  · rename_i h
    rw [← Bool.decide_or, decide_eq_true h]
    rfl
  · rename_i h
    rw [← Bool.decide_or, decide_eq_false h, Bool.false_or]

theorem trial_eq (n : Nat) {ps : List Nat} (h : 0 ∉ ps) : trial n ps = .ok (Prime.trial n ps) := by
  induction ps with
  | nil => rfl
  | cons p rest ih =>
    have hp : p ≠ 0 := fun h0 => h (h0 ▸ List.mem_cons_self)
    rw [trial, Prime.trial, nonzero_ok hp, ok_bind, ih fun h0 => h (List.mem_cons_of_mem p h0)]
    split
    · rfl
    · split <;> rfl

theorem test_eq (n : Nat) : test n = .ok (Prime.test n) := by
  unfold test Prime.test
  split
  · rfl
  rename_i hn
  have hbases : ∀ ps : List Nat, ps.allM (passes n) = .ok (ps.all (Prime.passes n)) := by
    intro ps
    induction ps with
    | nil => rfl
    | cons p rest ih =>
      rw [List.allM, passes_eq (by omega), ok_bind, List.all_cons]
      cases Prime.passes n p with
      | true => simpa using ih
      | false => rfl
  rw [trial_eq n (by decide), ok_bind, hbases]
  cases Prime.trial n Prime.bases <;> rfl

theorem isPrime_eq (d : Decimal) : isPrime d = liftM d.isPrime := by
  unfold isPrime Decimal.isPrime
  rw [integerOperand_eq]
  refine bind_liftM _ fun n => ?_
  rw [test_eq]
  rfl

end Reckon.Guarded
