import Reckon.Evaluation.Operator
import Reckon.Proofs.Decimal.Value

/-!
# The order of decimals

A comparison gives one or zero. Which of the two is said by the values alone: `Asks` is what each
comparison asks of two rational numbers. So the comparisons are those of a total order, on which the
scales have no influence, and no scale is out of their reach. Where the difference of two decimals
can be formed, its sign says the same.

Results:
* `eval_eq_one_iff`, `eval_eq_zero_iff`: what a comparison gives.
* `eval_congr_value`: decimals of the same values are compared alike.
* `comparison_numeric`: the comparisons as a total order, and the sign of the difference.
-/

namespace Reckon

open Decimal

namespace BinaryOp

/-- The comparisons. -/
def comparisons : List BinaryOp := [equal, notEqual, less, lessEqual, greater, greaterEqual]

/-- What a comparison asks of two numbers; no other operator asks anything. -/
def Asks : BinaryOp → ℚ → ℚ → Prop
  | equal, x, y => x = y
  | notEqual, x, y => x ≠ y
  | less, x, y => x < y
  | lessEqual, x, y => x ≤ y
  | greater, x, y => x > y
  | greaterEqual, x, y => x ≥ y
  | _, _, _ => False

/-- The comparison that asks for the contrary. -/
def contrary : BinaryOp → BinaryOp
  | equal => notEqual
  | notEqual => equal
  | less => greaterEqual
  | lessEqual => greater
  | greater => lessEqual
  | greaterEqual => less
  | op => op

variable {op : BinaryOp} {a b c d a' b' : Decimal}

theorem contrary_mem (h : op ∈ comparisons) : op.contrary ∈ comparisons := by
  cases op <;> first | decide | exact absurd h (by decide)

theorem asks_contrary (h : op ∈ comparisons) (x y : ℚ) : op.contrary.Asks x y ↔ ¬op.Asks x y := by
  cases op with
  | equal => rfl
  | notEqual => exact not_not.symm
  | less | lessEqual | greater | greaterEqual =>
    simp only [contrary, Asks, not_lt, not_le, ge_iff_le]
  | _ => exact absurd h (by decide)

/-- **A comparison is decided by the values.** -/
theorem eval_comparison (h : op ∈ comparisons) (a b : Decimal) :
    ∃ answer : Bool, op.eval a b = .ok (ofBool answer) ∧
      (answer = true ↔ op.Asks a.value b.value) := by
  cases op with
  | equal => exact ⟨_, rfl, eqValue_iff⟩
  | notEqual =>
    refine ⟨_, rfl, ?_⟩
    rw [Bool.not_eq_true', ← Bool.not_eq_true, eqValue_iff]
    rfl
  | less => exact ⟨_, rfl, ltValue_iff⟩
  | lessEqual => exact ⟨_, rfl, leValue_iff⟩
  | greater => exact ⟨_, rfl, ltValue_iff⟩
  | greaterEqual => exact ⟨_, rfl, leValue_iff⟩
  | _ => exact absurd h (by decide)

theorem eval_eq_one_iff (h : op ∈ comparisons) :
    op.eval a b = .ok one ↔ op.Asks a.value b.value := by
  obtain ⟨answer, heval, hanswer⟩ := eval_comparison h a b
  rw [heval, ← hanswer]
  cases answer <;> decide

theorem eval_eq_zero_iff (h : op ∈ comparisons) :
    op.eval a b = .ok zero ↔ ¬op.Asks a.value b.value := by
  obtain ⟨answer, heval, hanswer⟩ := eval_comparison h a b
  rw [heval, ← hanswer]
  cases answer <;> decide

/-- Decimals of the same values are compared alike. -/
theorem eval_congr_value (h : op ∈ comparisons) (ha : a'.value = a.value)
    (hb : b'.value = b.value) : op.eval a' b' = op.eval a b := by
  obtain ⟨answer, heval, hanswer⟩ := eval_comparison h a b
  obtain ⟨answer', heval', hanswer'⟩ := eval_comparison h a' b'
  rw [ha, hb, ← hanswer, ← Bool.eq_iff_iff] at hanswer'
  rw [heval, heval', hanswer']

/-- Of two numbers the first is less, or both are equal, or the first is greater. -/
theorem existsUnique_asks (x y : ℚ) : ∃! op, op ∈ [less, equal, greater] ∧ op.Asks x y := by
  have hmem {op : BinaryOp} : op ∈ [less, equal, greater] → op = less ∨ op = equal ∨ op = greater :=
    by simp
  rcases lt_trichotomy x y with h | h | h
  · refine ⟨less, ⟨by decide, h⟩, fun op ⟨hop, hasks⟩ => ?_⟩
    rcases hmem hop with rfl | rfl | rfl
    · rfl
    · exact absurd hasks h.ne
    · exact absurd hasks h.not_gt
  · refine ⟨equal, ⟨by decide, h⟩, fun op ⟨hop, hasks⟩ => ?_⟩
    rcases hmem hop with rfl | rfl | rfl
    · exact absurd hasks h.not_lt
    · rfl
    · exact absurd hasks h.not_gt
  · refine ⟨greater, ⟨by decide, h⟩, fun op ⟨hop, hasks⟩ => ?_⟩
    rcases hmem hop with rfl | rfl | rfl
    · exact absurd hasks h.not_gt
    · exact absurd hasks h.ne'
    · rfl

/-- All comparisons but the one for a difference can be chained. -/
theorem asks_trans {x y z : ℚ} (hop : op ∈ comparisons) (hne : op ≠ notEqual)
    (hxy : op.Asks x y) (hyz : op.Asks y z) : op.Asks x z := by
  cases op with
  | equal => exact Eq.trans hxy hyz
  | less => exact lt_trans hxy hyz
  | lessEqual => exact le_trans hxy hyz
  | greater => exact gt_trans hxy hyz
  | greaterEqual => exact ge_trans hxy hyz
  | notEqual => exact absurd rfl hne
  | _ => exact absurd hop (by decide)

/-- The sign of a difference says how its operands compare. -/
theorem eval_iff_sub (h : a.sub b = .ok d) :
    (less.eval a b = .ok one ↔ d.value < 0) ∧ (equal.eval a b = .ok one ↔ d.value = 0) ∧
      (greater.eval a b = .ok one ↔ d.value > 0) := by
  rw [eval_eq_one_iff (by decide), eval_eq_one_iff (by decide), eval_eq_one_iff (by decide),
    (value_sub h).1]
  exact ⟨sub_neg.symm, sub_eq_zero.symm, sub_pos.symm⟩

/-- **Comparisons are numeric and total.** Each gives one where the values have the property that it
asks for and zero elsewhere, whatever the scales. Just one of `<`, `==` and `>` gives one, the other
comparisons are their contraries, and those that can be chained are. No scale has any influence.
Where there is a difference, its sign agrees. -/
theorem comparison_numeric (a b : Decimal) :
    compareValues a b = compare a.value b.value ∧
    (∀ op ∈ comparisons,
      (op.eval a b = .ok one ↔ op.Asks a.value b.value) ∧
      (op.eval a b = .ok zero ↔ ¬op.Asks a.value b.value)) ∧
    (∃! op, op ∈ [less, equal, greater] ∧ op.eval a b = .ok one) ∧
    (∀ op ∈ comparisons, op.contrary.eval a b = .ok one ↔ op.eval a b = .ok zero) ∧
    (∀ op ∈ comparisons, op ≠ notEqual → ∀ c, op.eval a b = .ok one → op.eval b c = .ok one →
      op.eval a c = .ok one) ∧
    (∀ op ∈ comparisons, ∀ a' b', a'.value = a.value → b'.value = b.value →
      op.eval a' b' = op.eval a b) ∧
    (∀ op ∈ comparisons, ∀ (s : Scale) a', a.rescale s = .ok a' →
      op.eval a' b = op.eval a b ∧ op.eval b a' = op.eval b a) ∧
    ∀ d, a.sub b = .ok d →
      (less.eval a b = .ok one ↔ d.value < 0) ∧ (equal.eval a b = .ok one ↔ d.value = 0) ∧
        (greater.eval a b = .ok one ↔ d.value > 0) := by
  refine ⟨compareValues_eq a b, ?answers, ?unique, ?contrary, ?chained, ?values, ?rescaled, ?sign⟩
  case answers =>
    intro op hop
    exact ⟨eval_eq_one_iff hop, eval_eq_zero_iff hop⟩
  case unique =>
    have hsub {op : BinaryOp} (h : op ∈ [less, equal, greater]) : op ∈ comparisons := by
      revert h
      cases op <;> decide
    obtain ⟨op, ⟨hmem, hasks⟩, hunique⟩ := existsUnique_asks a.value b.value
    refine ⟨op, ⟨hmem, (eval_eq_one_iff (hsub hmem)).mpr hasks⟩, ?_⟩
    rintro op' ⟨hmem', heval⟩
    exact hunique op' ⟨hmem', (eval_eq_one_iff (hsub hmem')).mp heval⟩
  case contrary =>
    intro op hop
    rw [eval_eq_one_iff (contrary_mem hop), eval_eq_zero_iff hop, asks_contrary hop]
  case chained =>
    intro op hop hne c
    rw [eval_eq_one_iff hop, eval_eq_one_iff hop, eval_eq_one_iff hop]
    exact asks_trans hop hne
  case values =>
    intro op hop a' b' ha hb
    exact eval_congr_value hop ha hb
  case rescaled =>
    intro op hop s a' h
    have hvalue := (rescale_ok h).2
    exact ⟨eval_congr_value hop hvalue rfl, eval_congr_value hop rfl hvalue⟩
  case sign =>
    intro d h
    exact eval_iff_sub h

/-- The smallest and the largest scale are compared across the numbers between them, where no
difference can be formed. -/
theorem comparison_numeric_apart :
    let tiny : Decimal := ⟨1, ⟨9223372036854775807, by decide, by decide⟩⟩
    let huge : Decimal := ⟨1, .least⟩
    let hundredths : Decimal := ⟨100, ⟨2, by decide, by decide⟩⟩
    tiny.sub huge = .error .scaleOverflow ∧ less.eval tiny huge = .ok one ∧
      lessEqual.eval huge tiny = .ok zero ∧
      one.sub hundredths = .ok ⟨0, ⟨2, by decide, by decide⟩⟩ ∧
      equal.eval one hundredths = .ok one := by
  intro tiny huge hundredths
  have hsub : one.sub hundredths = .ok ⟨0, ⟨2, by decide, by decide⟩⟩ := rfl
  have hlow : less.eval tiny one = .ok one := eq_ok_of_toOption (by decide +kernel)
  have hhigh : less.eval one huge = .ok one := eq_ok_of_toOption (by decide +kernel)
  obtain ⟨-, -, -, -, hchained, -⟩ := comparison_numeric tiny one
  obtain ⟨-, hasks, -⟩ := comparison_numeric tiny huge
  obtain ⟨-, hasks', -, hcontrary, -⟩ := comparison_numeric huge tiny
  obtain ⟨-, -, -, -, -, -, -, hsign⟩ := comparison_numeric one hundredths
  have hless := hchained less (by decide) (by decide) huge hlow hhigh
  have hvalue : tiny.value < huge.value := (hasks less (by decide)).1.mp hless
  have hgreater := (hasks' greater (by decide)).1.mpr hvalue
  exact ⟨rfl, hless, (hcontrary lessEqual (by decide)).mp hgreater, hsub,
    (hsign _ hsub).2.1.mpr (value_eq_zero.mpr rfl)⟩

end BinaryOp

end Reckon
