import Reckon.Evaluation.Operator
import Reckon.Proofs.Decimal.Division
import Reckon.Proofs.Decimal.Integral
import Reckon.Proofs.Evaluation.Sequence

/-!
# Operators on values

A number has many decimals, which differ in their scale. The operators, and the functions that are
not left to binary64, do the same to all of them: decimals of the same value give results of the
same value. The only operator that may be left to binary64 is the power, if its exponent is not
integral.

Results:
* `UnaryOp.respectsValue`, `BinaryOp.respectsValue`: operators on decimals of the same value.
* `Builtin.respectsValue`: functions on decimals of the same value.
-/

namespace Reckon

/-- Decimals of the same value give results of the same value. -/
def RespectsValue (f : Decimal → Except ArithmeticError Decimal) : Prop :=
  ∀ a a' c c' : Decimal, a.value = a'.value → f a = .ok c → f a' = .ok c' → c.value = c'.value

/-- Two pairs of decimals of the same values give results of the same value. -/
def RespectsValue₂ (f : Decimal → Decimal → Except ArithmeticError Decimal) : Prop :=
  ∀ a a' b b' c c' : Decimal, a.value = a'.value → b.value = b'.value →
    f a b = .ok c → f a' b' = .ok c' → c.value = c'.value

namespace Decimal

variable {a a' b b' c c' : Decimal}

/-! ## Integral operands -/

/-- What an operation does with the integer that its operand is depends on the value only. -/
theorem integerOperand_bind_congr {α : Type} {operation : String}
    {f : ℤ → Except ArithmeticError α} {r r' : α} (h : a.value = a'.value)
    (hr : (integerOperand operation a >>= f) = .ok r)
    (hr' : (integerOperand operation a' >>= f) = .ok r') : r = r' := by
  obtain ⟨n, hn, hr⟩ := bind_ok hr
  obtain ⟨n', hn', hr'⟩ := bind_ok hr'
  rw [integerOperand_congr h hn hn', hr'] at hr
  cases hr
  rfl

theorem respectsValue_integerOperand (operation : String) (f : ℤ → Except ArithmeticError Decimal) :
    RespectsValue fun a => integerOperand operation a >>= f := by
  intro a a' c c' h hc hc'
  rw [integerOperand_bind_congr h hc hc']

theorem respectsValue_factorial : RespectsValue factorial := respectsValue_integerOperand _ _

theorem respectsValue_invertBits : RespectsValue invertBits := respectsValue_integerOperand _ _

theorem respectsValue_isPrime : RespectsValue isPrime := respectsValue_integerOperand _ _

theorem respectsValue₂_shift (operation : String) (left : Bool) :
    RespectsValue₂ (shift operation left) := by
  intro a a' b b' c c' ha hb hc hc'
  obtain ⟨n, hn, hc⟩ := bind_ok hc
  obtain ⟨n', hn', hc'⟩ := bind_ok hc'
  rw [← integerOperand_congr ha hn hn'] at hc'
  rw [integerOperand_bind_congr hb hc hc']

theorem mapM_integerOperand_congr {operation : String} {ds ds' : List Decimal} {ns ns' : List ℤ}
    (h : List.Forall₂ (fun d d' : Decimal => d.value = d'.value) ds ds')
    (hns : ds.mapM (integerOperand operation) = .ok ns)
    (hns' : ds'.mapM (integerOperand operation) = .ok ns') : ns = ns' := by
  induction h generalizing ns ns' with
  | nil =>
    cases hns
    cases hns'
    rfl
  | cons hd _ ih =>
    rw [List.mapM_cons] at hns hns'
    obtain ⟨n, hn, hns⟩ := bind_ok hns
    obtain ⟨n', hn', hns'⟩ := bind_ok hns'
    obtain ⟨rest, hrest, hns⟩ := bind_ok hns
    obtain ⟨rest', hrest', hns'⟩ := bind_ok hns'
    cases hns
    cases hns'
    rw [integerOperand_congr hd hn hn', ih hrest hrest']

theorem foldBits_congr {operation : String} {combine : ℤ → ℤ → ℤ} {ds ds' : List Decimal}
    (ha : a.value = a'.value)
    (h : List.Forall₂ (fun d d' : Decimal => d.value = d'.value) ds ds')
    (hc : foldBits operation combine a ds = .ok c)
    (hc' : foldBits operation combine a' ds' = .ok c') : c = c' := by
  obtain ⟨n, hn, hc⟩ := bind_ok hc
  obtain ⟨n', hn', hc'⟩ := bind_ok hc'
  obtain ⟨ns, hns, hc⟩ := bind_ok hc
  obtain ⟨ns', hns', hc'⟩ := bind_ok hc'
  rw [integerOperand_congr ha hn hn', mapM_integerOperand_congr h hns hns', hc'] at hc
  cases hc
  rfl

/-! ## Rounding -/

theorem respectsValue_roundToScale (s : Scale) (mode : RoundingMode) :
    RespectsValue fun a => a.roundToScale s mode := by
  intro a a' c c' h hc hc'
  obtain ⟨hs, hu⟩ := roundToScale_ok hc
  obtain ⟨hs', hu'⟩ := roundToScale_ok hc'
  rw [value, value, hs, hs', hu, hu', h]

theorem respectsValue_trunc : RespectsValue trunc := respectsValue_roundToScale _ _

/-! ## Arithmetic -/

theorem respectsValue₂_add : RespectsValue₂ add := by
  intro a a' b b' c c' ha hb hc hc'
  rw [(value_add hc).1, (value_add hc').1, ha, hb]

theorem respectsValue₂_sub : RespectsValue₂ sub := by
  intro a a' b b' c c' ha hb hc hc'
  rw [(value_sub hc).1, (value_sub hc').1, ha, hb]

theorem respectsValue₂_mul : RespectsValue₂ mul := by
  intro a a' b b' c c' ha hb hc hc'
  rw [(value_mul hc).1, (value_mul hc').1, ha, hb]

theorem respectsValue₂_div : RespectsValue₂ div := by
  intro a a' b b' c c' ha hb hc hc'
  rw [(value_div hc).2, (value_div hc').2, ha, hb]

theorem respectsValue₂_rem : RespectsValue₂ rem := by
  intro a a' b b' c c' ha hb hc hc'
  rw [(value_rem hc).2.1, (value_rem hc').2.1, ha, hb]

/-- A power with an integral exponent is formed exactly, or divided into one. -/
theorem power_ok (hb : b.isIntegral = true) (h : a.power b = .ok c) :
    ∃ n : ℤ, b.value = n ∧ a.powInt n = .ok c := by
  obtain ⟨r, hr, h⟩ := bind_ok h
  cases r with
  | none => rw [toInteger_eq_none hr] at hb; cases hb
  | some n =>
    refine ⟨n, toInteger_eq_some hr, ?_⟩
    dsimp only at h
    split at h
    · cases h
    · exact h

theorem power_congr (hb : b.isIntegral = true) (ha : a.value = a'.value) (h : b.value = b'.value)
    (hc : a.power b = .ok c) (hc' : a'.power b' = .ok c') : c.value = c'.value := by
  have hb' : b'.isIntegral = true := by
    rw [isIntegral_iff] at hb ⊢
    rwa [← h]
  obtain ⟨n, hn, hc⟩ := power_ok hb hc
  obtain ⟨n', hn', hc'⟩ := power_ok hb' hc'
  have : n = n' := by
    rw [h, hn'] at hn
    exact_mod_cast hn.symm
  rw [value_powInt hc, value_powInt hc', this, ha]

/-! ## Comparisons -/

theorem isZero_congr (h : a.value = a'.value) : a.isZero = a'.isZero := by
  rw [Bool.eq_iff_iff, isZero_iff, isZero_iff, h]

theorem eqValue_congr (ha : a.value = a'.value) (hb : b.value = b'.value) :
    a.eqValue b = a'.eqValue b' := by
  rw [Bool.eq_iff_iff, eqValue_iff, eqValue_iff, ha, hb]

theorem ltValue_congr (ha : a.value = a'.value) (hb : b.value = b'.value) :
    a.ltValue b = a'.ltValue b' := by
  rw [Bool.eq_iff_iff, ltValue_iff, ltValue_iff, ha, hb]

theorem leValue_congr (ha : a.value = a'.value) (hb : b.value = b'.value) :
    a.leValue b = a'.leValue b' := by
  rw [Bool.eq_iff_iff, leValue_iff, leValue_iff, ha, hb]

end Decimal

/-! ## Operators and functions -/

theorem UnaryOp.respectsValue (op : UnaryOp) : RespectsValue op.eval := by
  cases op with
  | not =>
    intro a a' c c' h hc hc'
    cases hc
    cases hc'
    rw [Decimal.isZero_congr h]
  | factorial => exact Decimal.respectsValue_factorial

/-- Operands of the same values give results of the same value, if no power is left to binary64. -/
theorem BinaryOp.respectsValue {op : BinaryOp} {a a' b b' c c' : Decimal}
    (hpow : op = .pow → b.isIntegral = true) (ha : a.value = a'.value) (hb : b.value = b'.value)
    (hc : op.eval a b = .ok c) (hc' : op.eval a' b' = .ok c') : c.value = c'.value := by
  cases op with
  | shiftLeft => exact Decimal.respectsValue₂_shift _ _ a a' b b' c c' ha hb hc hc'
  | shiftRight => exact Decimal.respectsValue₂_shift _ _ a a' b b' c c' ha hb hc hc'
  | add => exact Decimal.respectsValue₂_add a a' b b' c c' ha hb hc hc'
  | sub => exact Decimal.respectsValue₂_sub a a' b b' c c' ha hb hc hc'
  | mul => exact Decimal.respectsValue₂_mul a a' b b' c c' ha hb hc hc'
  | div => exact Decimal.respectsValue₂_div a a' b b' c c' ha hb hc hc'
  | mod => exact Decimal.respectsValue₂_rem a a' b b' c c' ha hb hc hc'
  | pow => exact Decimal.power_congr (hpow rfl) ha hb hc hc'
  | _ =>
    cases hc
    cases hc'
    simp only [Decimal.eqValue_congr ha hb, Decimal.ltValue_congr ha hb,
      Decimal.ltValue_congr hb ha, Decimal.leValue_congr ha hb, Decimal.leValue_congr hb ha]

namespace Builtin

/-- The functions that are left to binary64, and the random number, which is one. -/
def inBinary64 : List Builtin :=
  [acos, asin, atan, atan2, cbrt, cos, cosh, exp, hypot, log, log10, log2, logE, random, sin, sinh,
   sqrt, tan, tanh]

end Builtin

namespace Rule

variable {values values' : List Decimal} {c c' : Decimal}

theorem result?_unary_congr {f : Decimal → Except ArithmeticError Decimal} (hf : RespectsValue f)
    (h : List.Forall₂ (fun d d' : Decimal => d.value = d'.value) values values')
    (hc : (unary f).result? values = some (.ok c))
    (hc' : (unary f).result? values' = some (.ok c')) : c.value = c'.value := by
  rcases h with _ | ⟨ha, _ | _⟩
  · cases hc
  · exact hf _ _ c c' ha (Option.some.inj hc) (Option.some.inj hc')
  · cases hc

theorem result?_foldBits_congr {operation : String} {combine : ℤ → ℤ → ℤ}
    (h : List.Forall₂ (fun d d' : Decimal => d.value = d'.value) values values')
    (hc : (several (Decimal.foldBits operation combine)).result? values = some (.ok c))
    (hc' : (several (Decimal.foldBits operation combine)).result? values' = some (.ok c')) :
    c.value = c'.value := by
  rcases h with _ | ⟨ha, _ | ⟨hb, hrest⟩⟩
  · cases hc
  · cases hc
  · rw [Decimal.foldBits_congr ha (.cons hb hrest) (Option.some.inj hc) (Option.some.inj hc')]

end Rule

namespace Builtin

/-- Arguments of the same values give results of the same value. -/
theorem respectsValue {f : Builtin} (hf : f ∉ inBinary64) {values values' : List Decimal}
    {c c' : Decimal} (h : List.Forall₂ (fun d d' : Decimal => d.value = d'.value) values values')
    (hc : f.rule.result? values = some (.ok c)) (hc' : f.rule.result? values' = some (.ok c')) :
    c.value = c'.value := by
  cases f with
  | abs =>
    refine Rule.result?_unary_congr (fun a a' r r' h hr hr' => ?_) h hc hc'
    cases hr
    cases hr'
    rw [Decimal.value_abs, Decimal.value_abs, h]
  | bitAnd => exact Rule.result?_foldBits_congr h hc hc'
  | bitOr => exact Rule.result?_foldBits_congr h hc hc'
  | bitXor => exact Rule.result?_foldBits_congr h hc hc'
  | bitNot => exact Rule.result?_unary_congr Decimal.respectsValue_invertBits h hc hc'
  | ceil => exact Rule.result?_unary_congr (Decimal.respectsValue_roundToScale _ _) h hc hc'
  | floor => exact Rule.result?_unary_congr (Decimal.respectsValue_roundToScale _ _) h hc hc'
  | round => exact Rule.result?_unary_congr (Decimal.respectsValue_roundToScale _ _) h hc hc'
  | factorial => exact Rule.result?_unary_congr Decimal.respectsValue_factorial h hc hc'
  | isPrime => exact Rule.result?_unary_congr Decimal.respectsValue_isPrime h hc hc'
  | sum => simp [rule, Rule.result?] at hc
  | product => simp [rule, Rule.result?] at hc
  | _ => simp [inBinary64] at hf

end Builtin

end Reckon
