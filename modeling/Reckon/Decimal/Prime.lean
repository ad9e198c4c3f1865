import Reckon.Decimal.Integral

/-!
# Primes

The test of Miller and Rabin with the first twelve primes as bases. For an odd `n` the number
`n - 1` is `2 ^ rounds * odd`, and a base `a` is a witness against `n` if neither `a ^ odd` is one
nor any of `a ^ odd`, `a ^ (2 * odd)`, …, `rounds` numbers in all, is `-1` modulo `n`. A prime has
no witnesses. Follows `is_prime` and `miller_rabin` (specification, 10.6).
-/

namespace Reckon.Prime

/-- The bases of the test. -/
def bases : List Nat := [2, 3, 5, 7, 11, 13, 17, 19, 23, 29, 31, 37]

/-- `base ^ exponent` modulo `n`, by repeated squaring. -/
def powMod (n base exponent : Nat) : Nat :=
  if _h : exponent = 0 then 1 % n
  else
    let power := powMod n (base * base % n) (exponent / 2)
    if exponent % 2 = 1 then power * base % n else power
termination_by exponent
decreasing_by omega

/-- How often two divides `n`, and the odd number left then. -/
def splitTwos (n : Nat) : Nat × Nat :=
  if _h : n ≠ 0 ∧ n % 2 = 0 then
    let (count, odd) := splitTwos (n / 2)
    (count + 1, odd)
  else (0, n)
termination_by n
decreasing_by omega

/-- Whether one of the next `count` squares after `x` is `-1` modulo `n`. -/
def reachesMinusOne (n : Nat) : Nat → Nat → Bool
  | 0, _ => false
  | count + 1, x =>
    let square := x * x % n
    square = n - 1 || reachesMinusOne n count square

/-- Whether the base says nothing against `n` being prime. -/
def passes (n base : Nat) : Bool :=
  let (rounds, odd) := splitTwos (n - 1)
  let x := powMod n base odd
  x = 1 || x = n - 1 || reachesMinusOne n (rounds - 1) x

/-- Whether `n` is prime, if one of these small primes decides it. -/
def trial (n : Nat) : List Nat → Option Bool
  | [] => none
  | p :: rest => if n = p then some true else if n % p = 0 then some false else trial n rest

/-- Whether `n` passes the test for primes. -/
def test (n : Nat) : Bool :=
  if n < 2 then false
  else
    match trial n bases with
    | some answer => answer
    | none => bases.all (passes n)

end Reckon.Prime

namespace Reckon.Decimal

/-- One if the magnitude of an integer passes the test for primes, else zero. -/
def isPrime (d : Decimal) : Except ArithmeticError Decimal := do
  let n ← d.integerOperand "is_prime"
  return ofBool (Prime.test n.natAbs)

end Reckon.Decimal
