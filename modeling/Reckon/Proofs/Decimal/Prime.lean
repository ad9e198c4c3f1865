import Mathlib.FieldTheory.Finite.Basic
import Mathlib.Tactic.NormNum.Prime
import Reckon.Decimal.Prime
import Reckon.Proofs.Decimal.Integral

/-!
# What the test for primes says

An odd `n` is a strong probable prime to a base `a` if, with `n - 1 = 2 ^ s * d` and an odd `d`,
either `a ^ d` is one modulo `n` or one of the `s` numbers `a ^ (2 ^ i * d)` is `-1`. A prime is one
to every base that it does not divide: in a field only `1` and `-1` have the square `1`, and by
Fermat's theorem the last of the squares is `1`.

The test finds the primes among its bases and the numbers that one of these divides by division,
and asks of all other numbers whether they are strong probable primes to all its bases. So it
accepts all primes, and beside them the composite numbers that are strong pseudoprimes to all twelve
bases. The least of these is greater than `1680`, and it is at most `318665857834031151167461`.

Results:
* `passes_iff`: what one base of the test asks.
* `StrongProbable.of_prime`: a prime is a strong probable prime.
* `test_iff`: which numbers the test accepts.
* `isPrime_of_prime`: no prime is rejected.
* `isPrime_exact_iff`, `isPrime_pseudoprime`: where the test is exact, and where it is not.
-/

namespace Reckon.Prime

/-! ## The parts of the test -/

theorem powMod_eq (n base exponent : ℕ) : powMod n base exponent = base ^ exponent % n := by
  fun_induction powMod n base exponent with
  | case1 => simp
  | case2 base exponent h0 power hodd ih =>
    have hsplit : exponent = 2 * (exponent / 2) + 1 := by omega
    show powMod n (base * base % n) (exponent / 2) * base % n = base ^ exponent % n
    rw [ih, ← Nat.pow_mod, Nat.mod_mul_mod, ← pow_two, ← pow_mul, ← pow_succ, ← hsplit]
  | case3 base exponent h0 power heven ih =>
    have hsplit : exponent = 2 * (exponent / 2) := by omega
    show powMod n (base * base % n) (exponent / 2) = base ^ exponent % n
    rw [ih, ← Nat.pow_mod, ← pow_two, ← pow_mul, ← hsplit]

/-- A number is a power of two times an odd number. -/
theorem splitTwos_spec {n : ℕ} (hn : n ≠ 0) :
    n = 2 ^ (splitTwos n).1 * (splitTwos n).2 ∧ Odd (splitTwos n).2 := by
  fun_induction splitTwos n with
  | case1 n h count odd hsplit ih =>
    obtain ⟨heq, hodd⟩ := ih (by omega)
    rw [hsplit] at heq hodd
    refine ⟨?_, hodd⟩
    rw [pow_succ, mul_right_comm, ← heq]
    omega
  | case2 n h =>
    rw [pow_zero, one_mul, Nat.odd_iff]
    exact ⟨rfl, by omega⟩

/-- The power of two and the odd number are determined. -/
theorem eq_of_two_pow_mul_odd {s t d e : ℕ} (hd : Odd d) (he : Odd e)
    (h : 2 ^ s * d = 2 ^ t * e) : s = t ∧ d = e := by
  have le {s t d e : ℕ} (he : Odd e) (h : 2 ^ s * d = 2 ^ t * e) : s ≤ t := by
    have hdvd : 2 ^ s ∣ 2 ^ t * e := Dvd.intro d h
    have hcoprime : Nat.Coprime (2 ^ s) e := Nat.Coprime.pow_left s (Nat.coprime_two_left.mpr he)
    exact (Nat.pow_dvd_pow_iff_le_right (by decide)).mp (hcoprime.dvd_of_dvd_mul_right hdvd)
  obtain rfl := le_antisymm (le he h) (le hd h.symm)
  exact ⟨rfl, Nat.eq_of_mul_eq_mul_left (by positivity) h⟩

/-- The squares that are looked at are powers of the first number. -/
theorem reachesMinusOne_iff (n count x : ℕ) :
    reachesMinusOne n count x = true ↔ ∃ i < count, x ^ 2 ^ (i + 1) % n = n - 1 := by
  induction count generalizing x with
  | zero => simp [reachesMinusOne]
  | succ count ih =>
    have hsquare (i : ℕ) : (x * x % n) ^ 2 ^ (i + 1) % n = x ^ 2 ^ (i + 1 + 1) % n := by
      rw [← Nat.pow_mod, ← pow_two, ← pow_mul, ← pow_succ']
    simp only [reachesMinusOne, Bool.or_eq_true, decide_eq_true_iff, ih, hsquare]
    constructor
    · rintro (h | ⟨i, hi, h⟩)
      · exact ⟨0, by omega, by rwa [zero_add, pow_one, pow_two]⟩
      · exact ⟨i + 1, by omega, h⟩
    · rintro ⟨_ | i, hi, h⟩
      · exact .inl (by rwa [zero_add, pow_one, pow_two] at h)
      · exact .inr ⟨i, by omega, h⟩

/-! ## Strong probable primes -/

/-- With `n - 1 = 2 ^ s * d` for an odd `d`, the power of the base with the exponent `d` is one, or
one of the numbers that `s - 1` squarings make of it is minus one. -/
def StrongProbable (n base : ℕ) : Prop :=
  ∃ s d : ℕ, n - 1 = 2 ^ s * d ∧ Odd d ∧
    ((base : ZMod n) ^ d = 1 ∨ ∃ i < s, (base : ZMod n) ^ (2 ^ i * d) = -1)

theorem natCast_eq_one_iff {n : ℕ} (hn : 1 < n) (x : ℕ) : (x : ZMod n) = 1 ↔ x % n = 1 := by
  rw [← Nat.cast_one, ZMod.natCast_eq_natCast_iff', Nat.mod_eq_of_lt hn]

theorem natCast_eq_neg_one_iff {n : ℕ} (hn : 1 < n) (x : ℕ) :
    (x : ZMod n) = -1 ↔ x % n = n - 1 := by
  have hpred : ((n - 1 : ℕ) : ZMod n) = -1 := by
    rw [Nat.cast_sub hn.le, ZMod.natCast_self, Nat.cast_one, zero_sub]
  rw [← hpred, ZMod.natCast_eq_natCast_iff', Nat.mod_eq_of_lt (Nat.sub_lt (by omega) one_pos)]

/-- **One base of the test** asks whether an odd number is a strong probable prime to it. -/
theorem passes_iff {n : ℕ} (hn : 1 < n) (hodd : Odd n) (base : ℕ) :
    passes n base = true ↔ StrongProbable n base := by
  obtain ⟨hsplit, hd⟩ := splitTwos_spec (n := n - 1) (by omega)
  have hs : (splitTwos (n - 1)).1 ≠ 0 := by
    intro h0
    rw [h0, pow_zero, one_mul] at hsplit
    rw [← hsplit] at hd
    obtain ⟨k, hk⟩ := hodd
    obtain ⟨l, hl⟩ := hd
    omega
  have hpow (i d : ℕ) : (base ^ d % n) ^ 2 ^ i % n = n - 1 ↔
      (base : ZMod n) ^ (2 ^ i * d) = -1 := by
    rw [← Nat.pow_mod, ← pow_mul, mul_comm, ← natCast_eq_neg_one_iff hn]
    push_cast
    rfl
  have hiff : passes n base = true ↔ (base : ZMod n) ^ (splitTwos (n - 1)).2 = 1 ∨
      ∃ i < (splitTwos (n - 1)).1, (base : ZMod n) ^ (2 ^ i * (splitTwos (n - 1)).2) = -1 := by
    simp only [passes, Bool.or_eq_true, decide_eq_true_iff, reachesMinusOne_iff, powMod_eq, hpow,
      or_assoc]
    rw [← natCast_eq_one_iff hn, ← natCast_eq_neg_one_iff hn]
    push_cast
    refine or_congr Iff.rfl ⟨?_, ?_⟩
    · rintro (h | ⟨i, hi, h⟩)
      · exact ⟨0, by omega, by rwa [pow_zero, one_mul]⟩
      · exact ⟨i + 1, by omega, h⟩
    · rintro ⟨_ | i, hi, h⟩
      · exact .inl (by rwa [pow_zero, one_mul] at h)
      · exact .inr ⟨i, by omega, h⟩
  rw [hiff]
  constructor
  · exact fun h => ⟨_, _, hsplit, hd, h⟩
  · rintro ⟨s, d, heq, hd', h⟩
    obtain ⟨hs', hd'⟩ := eq_of_two_pow_mul_odd hd hd' (hsplit.symm.trans heq)
    rwa [hs', hd']

/-- In a field a number whose repeated squares reach one is one, or they pass minus one. -/
theorem eq_one_or_neg_one_of_pow {F : Type} [Field F] {x : F} {s : ℕ} (h : x ^ 2 ^ s = 1) :
    x = 1 ∨ ∃ i < s, x ^ 2 ^ i = -1 := by
  induction s with
  | zero => exact .inl (by rwa [pow_zero, pow_one] at h)
  | succ s ih =>
    rw [pow_succ, pow_mul, sq_eq_one_iff] at h
    rcases h with h | h
    · exact (ih h).imp_right fun ⟨i, hi, hx⟩ => ⟨i, by omega, hx⟩
    · exact .inr ⟨s, by omega, h⟩

/-- **A prime is a strong probable prime** to every base that it does not divide. -/
theorem StrongProbable.of_prime {p base : ℕ} (hp : p.Prime) (hbase : ¬p ∣ base) :
    StrongProbable p base := by
  have : Fact p.Prime := ⟨hp⟩
  have htwo := hp.two_le
  obtain ⟨hsplit, hd⟩ := splitTwos_spec (n := p - 1) (by omega)
  have hne : (base : ZMod p) ≠ 0 := by
    rwa [Ne, ZMod.natCast_eq_zero_iff]
  have hfermat : ((base : ZMod p) ^ (splitTwos (p - 1)).2) ^ 2 ^ (splitTwos (p - 1)).1 = 1 := by
    rw [← pow_mul, mul_comm, ← hsplit, ZMod.pow_card_sub_one_eq_one hne]
  refine ⟨_, _, hsplit, hd, ?_⟩
  exact (eq_one_or_neg_one_of_pow hfermat).imp_right fun ⟨i, hi, h⟩ =>
    ⟨i, hi, by rwa [mul_comm, pow_mul]⟩

/-- A number has no factor in common with a base to which it is a strong probable prime. -/
theorem StrongProbable.not_dvd {n base p : ℕ} (h : StrongProbable n base) (hp : p.Prime)
    (hpn : p ∣ n) : ¬p ∣ base := by
  intro hbase
  have : Fact p.Prime := ⟨hp⟩
  obtain ⟨s, d, -, hd, hpow⟩ := h
  have hzero : (ZMod.castHom hpn (ZMod p)) (base : ZMod n) = 0 := by
    rw [map_natCast, ZMod.natCast_eq_zero_iff]
    exact hbase
  have hd0 : d ≠ 0 := hd.pos.ne'
  rcases hpow with h | ⟨i, -, h⟩
  · have h := congrArg (ZMod.castHom hpn (ZMod p)) h
    rw [map_pow, hzero, zero_pow hd0, map_one] at h
    exact zero_ne_one h
  · have h := congrArg (ZMod.castHom hpn (ZMod p)) h
    rw [map_pow, hzero, zero_pow (mul_ne_zero (by positivity) hd0), map_neg, map_one] at h
    exact neg_ne_zero.mpr one_ne_zero h.symm

/-! ## The whole test -/

theorem prime_of_mem_bases : ∀ p ∈ bases, p.Prime := by
  simp only [bases, List.forall_mem_cons, List.not_mem_nil, false_imp_iff, implies_true, and_true]
  norm_num

/-- A division leaves a number alone that none of the primes divides. -/
theorem trial_eq_none_iff {n : ℕ} {ps : List ℕ} : trial n ps = none ↔ ∀ p ∈ ps, ¬p ∣ n := by
  induction ps with
  | nil => simp [trial]
  | cons p rest ih =>
    rw [List.forall_mem_cons, ← ih, trial, Nat.dvd_iff_mod_eq_zero]
    split_ifs with heq hmod
    · simp [heq]
    · simp [hmod]
    · simp [hmod]

/-- What a division by primes decides is right. -/
theorem prime_iff_of_trial {n : ℕ} {ps : List ℕ} (hps : ∀ p ∈ ps, p.Prime) {answer : Bool}
    (h : trial n ps = some answer) : answer = true ↔ n.Prime := by
  induction ps with
  | nil => cases h
  | cons p rest ih =>
    rw [List.forall_mem_cons] at hps
    rw [trial] at h
    split_ifs at h with heq hmod
    · cases h
      rw [heq]
      exact iff_of_true rfl hps.1
    · cases h
      refine iff_of_false Bool.false_ne_true fun hn => heq ?_
      have hdvd := Nat.dvd_of_mod_eq_zero hmod
      exact ((Nat.prime_dvd_prime_iff_eq hps.1 hn).mp hdvd).symm
    · exact ih hps.2 h

/-- A composite number that is a strong probable prime to all bases of the test. -/
def Pseudoprime (n : ℕ) : Prop := 1 < n ∧ ¬n.Prime ∧ ∀ base ∈ bases, StrongProbable n base

/-- **The numbers that the test accepts** are the primes and the pseudoprimes. -/
theorem test_iff (n : ℕ) : test n = true ↔ n.Prime ∨ Pseudoprime n := by
  unfold test
  by_cases hn : n < 2
  · rw [if_pos hn]
    refine iff_of_false Bool.false_ne_true ?_
    rintro (h | h)
    · exact absurd h.two_le (by omega)
    · exact absurd h.1 (by omega)
  rw [if_neg hn]
  cases htrial : trial n bases with
  | some answer =>
    have hsome : ¬∀ p ∈ bases, ¬p ∣ n := by
      rw [← trial_eq_none_iff, htrial]
      exact Option.some_ne_none answer
    push Not at hsome
    obtain ⟨p, hp, hdvd⟩ := hsome
    -- a prime that divides the number and is a base rules the other case out
    have hnot : ¬Pseudoprime n := fun h =>
      (h.2.2 p hp).not_dvd (prime_of_mem_bases p hp) hdvd dvd_rfl
    rw [or_iff_left hnot]
    exact prime_iff_of_trial prime_of_mem_bases htrial
  | none =>
    have hnone := trial_eq_none_iff.mp htrial
    have hodd : Odd n := Nat.not_even_iff_odd.mp fun h => hnone 2 (by decide) h.two_dvd
    simp only [List.all_eq_true, passes_iff (by omega) hodd]
    constructor
    · intro h
      by_cases hp : n.Prime
      · exact .inl hp
      · exact .inr ⟨by omega, hp, h⟩
    · rintro (hp | h) base hbase
      · refine .of_prime hp fun hdvd => ?_
        have heq := (Nat.prime_dvd_prime_iff_eq hp (prime_of_mem_bases base hbase)).mp hdvd
        exact hnone base hbase (heq ▸ dvd_rfl)
      · exact h.2.2 base hbase

/-- The factors of a pseudoprime are greater than all bases. -/
theorem Pseudoprime.le {n : ℕ} (h : Pseudoprime n) : 1681 ≤ n := by
  obtain ⟨hn, hprime, hbases⟩ := h
  have hfactor := Nat.minFac_prime (n := n) (by omega)
  have hlarge : 41 ≤ n.minFac := by
    by_contra hlt
    have hmem : n.minFac ∈ bases := by
      have hall : ∀ p < 41, p.Prime → p ∈ bases := by decide
      exact hall _ (by omega) hfactor
    exact (hbases _ hmem).not_dvd hfactor n.minFac_dvd dvd_rfl
  calc 1681 = 41 ^ 2 := rfl
    _ ≤ n.minFac ^ 2 := Nat.pow_le_pow_left hlarge 2
    _ ≤ n := Nat.minFac_sq_le_self (by omega) hprime

end Reckon.Prime

namespace Reckon.Decimal

/-- The answer of the test for an integral decimal. -/
theorem isPrime_eq {d : Decimal} {n : ℤ} (hv : d.value = n) (hs : -maxZeros ≤ d.scale.toInt) :
    d.isPrime = .ok (ofBool (Prime.test n.natAbs)) := by
  rw [isPrime, integerOperand_eq_ok_iff.mpr (isInteger_of_value hv hs)]
  rfl

theorem ofBool_injective {a b : Bool} (h : ofBool a = ofBool b) : a = b := by
  cases a <;> cases b <;> first | rfl | exact absurd h (by decide)

/-- **No prime is rejected.** An integral decimal that can be written out gets an answer, it is one
if the magnitude is a prime, and so it is zero only if the magnitude is zero, one or composite. -/
theorem isPrime_of_prime {d : Decimal} {n : ℤ} (hv : d.value = n)
    (hs : -(2 ^ 32 - 1) ≤ d.scale.toInt) :
    (d.isPrime = .ok .one ∨ d.isPrime = .ok .zero) ∧
    (n.natAbs.Prime → d.isPrime = .ok .one) ∧
    (d.isPrime = .ok .zero → n = 0 ∨ n.natAbs = 1 ∨
      ∃ a b, 1 < a ∧ 1 < b ∧ n.natAbs = a * b) := by
  have heq := isPrime_eq hv hs
  have hprime (hp : n.natAbs.Prime) : d.isPrime = .ok .one := by
    rw [heq, (Prime.test_iff _).mpr (.inl hp)]
    rfl
  refine ⟨?_, hprime, fun hzero => ?_⟩
  · rw [heq]
    cases Prime.test n.natAbs
    · exact .inr rfl
    · exact .inl rfl
  · have hnot : ¬n.natAbs.Prime := by
      intro hp
      rw [hprime hp] at hzero
      exact absurd hzero (by decide)
    by_cases hlarge : 2 ≤ n.natAbs
    · obtain ⟨a, ha, htwo, hlt⟩ := (Nat.not_prime_iff_exists_dvd_lt hlarge).mp hnot
      obtain ⟨b, hb⟩ := ha
      refine .inr (.inr ⟨a, b, htwo, ?_, hb⟩)
      by_contra hle
      have hmul : a * b ≤ a * 1 := Nat.mul_le_mul_left a (not_lt.mp hle)
      omega
    · omega

/-- To the base 3 the prime 65537 passes only by the last of the squares that are looked at. -/
theorem isPrime_of_prime_fermat :
    let d : Decimal := ⟨-6553700, ⟨2, by decide, by decide⟩⟩
    d.value = (-65537 : ℤ) ∧ -(2 ^ 32 - 1) ≤ d.scale.toInt ∧ Nat.Prime 65537 ∧
      d.isPrime = .ok .one := by
  intro d
  have hv : d.value = (-65537 : ℤ) := by norm_num [d, value]
  have hp : Nat.Prime 65537 := by norm_num
  exact ⟨hv, by decide, hp, (isPrime_of_prime hv (by decide)).2.1 hp⟩

/-- **Where the test is exact**: an integral decimal that can be written out gets the right answer
just if its magnitude is no composite number that is a strong pseudoprime to all twelve bases. No
such number is below `1681`. -/
theorem isPrime_exact_iff {d : Decimal} {n : ℤ} (hv : d.value = n)
    (hs : -(2 ^ 32 - 1) ≤ d.scale.toInt) :
    (d.isPrime = .ok (ofBool n.natAbs.Prime) ↔ ¬Prime.Pseudoprime n.natAbs) ∧
    (Prime.Pseudoprime n.natAbs → d.isPrime = .ok .one) ∧
    (n.natAbs < 1681 → d.isPrime = .ok (ofBool n.natAbs.Prime)) := by
  have heq := isPrime_eq hv hs
  have hexact : d.isPrime = .ok (ofBool n.natAbs.Prime) ↔ ¬Prime.Pseudoprime n.natAbs := by
    have hok : d.isPrime = .ok (ofBool n.natAbs.Prime) ↔
        (Prime.test n.natAbs = true ↔ n.natAbs.Prime) := by
      rw [heq, Except.ok.injEq]
      constructor
      · intro h
        rw [ofBool_injective h, decide_eq_true_iff]
      · intro h
        rw [Bool.eq_iff_iff.mpr (h.trans (decide_eq_true_iff).symm)]
    rw [hok, Prime.test_iff]
    constructor
    · exact fun h hpseudo => hpseudo.2.1 (h.mp (.inr hpseudo))
    · exact fun h => or_iff_left h
  refine ⟨hexact, fun hpseudo => ?_, fun hlt => hexact.mpr fun hpseudo => ?_⟩
  · rw [heq, (Prime.test_iff _).mpr (.inr hpseudo)]
    rfl
  · exact absurd hpseudo.le (by omega)

theorem isPrime_exact_iff_composite :
    let d : Decimal := ⟨-167900, ⟨2, by decide, by decide⟩⟩
    d.value = (-1679 : ℤ) ∧ -(2 ^ 32 - 1) ≤ d.scale.toInt ∧ ¬Nat.Prime 1679 ∧
      d.isPrime = .ok .zero := by
  intro d
  have hv : d.value = (-1679 : ℤ) := by norm_num [d, value]
  have hp : ¬Nat.Prime 1679 := by norm_num
  have hexact := (isPrime_exact_iff hv (by decide)).2.2 (by decide)
  refine ⟨hv, by decide, hp, hexact.trans ?_⟩
  rw [show (-1679 : ℤ).natAbs = 1679 from rfl, decide_eq_false hp]
  rfl

/-- A product of two primes below `33 * 10 ^ 23` that the test accepts. -/
theorem isPrime_pseudoprime :
    318665857834031151167461 < 33 * 10 ^ 23 ∧
    399165290221 * 798330580441 = 318665857834031151167461 ∧
    ¬Nat.Prime 318665857834031151167461 ∧
    (ofInt 318665857834031151167461).isPrime = .ok .one := by
  have hfactors : 399165290221 * 798330580441 = 318665857834031151167461 := by norm_num
  refine ⟨by norm_num, hfactors, ?_, ?_⟩
  · rw [← hfactors]
    exact Nat.not_prime_mul (by norm_num) (by norm_num)
  · rw [isPrime_eq (value_ofInt _) (by decide)]
    decide +kernel

end Reckon.Decimal
