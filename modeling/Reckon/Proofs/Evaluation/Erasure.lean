import Mathlib.Data.List.Basic
import Reckon.Proofs.Evaluation.Record

/-!
# Recording changes nothing

Without its record a recorded evaluation is the evaluation itself. The one place where the two are
put together differently is the call of a function: a recorded call evaluates its arguments first
and then hands their values to the function, while a function evaluates its arguments itself. Both
come to the same for all functions but those of ranges.

Results:
* `perform_eq_all`: all functions but those of ranges evaluate all their arguments first.
* `arguments_cases`, `recorded_cases`: what a call, and a recorded one, can be.
* `evaluation_recorded`: a recorded evaluation without its record.
-/

namespace Reckon

/-! ## Calls evaluate their arguments first -/

theorem Evaluation.all_map_pure {α : Type} (values : List α) :
    Evaluation.all (values.map pure) = pure values := by
  induction values with
  | nil => rfl
  | cons value rest ih => simp [Evaluation.all, ih]

namespace Rule

/-- All rules but those of ranges evaluate their arguments from left to right first. -/
theorem perform?_eq_all {r : Rule} {arguments : List (Evaluation Decimal)}
    {evaluation : Evaluation Decimal} (hrange : ∀ start combine, r ≠ .range start combine)
    (h : r.perform? arguments = some evaluation) (other : List Decimal → Evaluation Decimal) :
    evaluation = Evaluation.all arguments >>= fun values =>
      (r.perform? (values.map pure)).getD (other values) := by
  unfold perform? at h
  split at h <;> cases h
  case h_7 => exact absurd rfl (hrange _ _)
  case h_5 => simp [Evaluation.all, Evaluation.all_map_pure, perform?]
  all_goals simp [Evaluation.all, perform?]

end Rule

namespace Builtin

theorem perform_eq_getD (f : Builtin) (name : String) (arguments : List (Evaluation Decimal)) :
    f.perform name arguments =
      (f.rule.perform? arguments).getD (throw (.argumentCount name f.arity arguments.length)) := by
  unfold perform
  split
  · exact Option.get_eq_getD _
  · rename_i h
    rw [← isSome_perform?, Bool.not_eq_true, Option.isSome_eq_false_iff,
      Option.isNone_iff_eq_none] at h
    rw [h, Option.getD_none]

/-- A call with as many arguments as the function takes does what the rule says. -/
theorem exists_perform_eq {f : Builtin} (name : String) {arguments : List (Evaluation Decimal)}
    (ha : f.arity.accepts arguments.length = true) :
    ∃ evaluation, f.rule.perform? arguments = some evaluation ∧
      f.perform name arguments = evaluation := by
  obtain ⟨evaluation, h⟩ :=
    Option.isSome_iff_exists.mp ((f.isSome_perform? arguments).trans ha)
  exact ⟨evaluation, h, by rw [perform_eq_getD, h, Option.getD_some]⟩

/-- A call of a function that is not one of ranges evaluates its arguments first, provided that
there are as many as the function takes. -/
theorem perform_eq_all {f : Builtin} (name : String) {arguments : List (Evaluation Decimal)}
    (hrange : ∀ start combine, f.rule ≠ .range start combine)
    (ha : f.arity.accepts arguments.length = true) :
    f.perform name arguments =
      Evaluation.all arguments >>= fun values => f.perform name (values.map pure) := by
  obtain ⟨evaluation, h, hperform⟩ := exists_perform_eq name ha
  rw [hperform]
  refine (Rule.perform?_eq_all hrange h fun values =>
    throw (.argumentCount name f.arity
      (values.map (pure : Decimal → Evaluation Decimal)).length)).trans ?_
  simp only [perform_eq_getD]

theorem perform_of_not_accepts {f : Builtin} (name : String)
    {arguments : List (Evaluation Decimal)} (ha : f.arity.accepts arguments.length = false) :
    f.perform name arguments = throw (.argumentCount name f.arity arguments.length) := by
  rw [perform, dif_neg (by simp [ha])]

/-- A function is one of ranges with a lower bound, an upper bound and a body, or another function
with as many arguments as it takes, or there are too few or too many. -/
theorem arguments_cases {α : Type} (f : Builtin) (arguments : List α) :
    (∃ start combine lower upper body, f.rule = .range start combine ∧
      arguments = [lower, upper, body]) ∨
    ((∀ start combine, f.rule ≠ .range start combine) ∧
      f.arity.accepts arguments.length = true) ∨
    f.arity.accepts arguments.length = false := by
  by_cases ha : f.arity.accepts arguments.length = true
  · by_cases hrange : ∃ start combine, f.rule = .range start combine
    · obtain ⟨start, combine, hrule⟩ := hrange
      have hlength : arguments.length = 3 := by
        rw [← rule_arity, hrule] at ha
        simpa [Rule.arity, Arity.accepts] using ha
      obtain ⟨lower, upper, body, rfl⟩ := List.length_eq_three.mp hlength
      exact .inl ⟨start, combine, lower, upper, body, hrule, rfl⟩
    · exact .inr (.inl ⟨fun start combine hrule => hrange ⟨start, combine, hrule⟩, ha⟩)
  · exact .inr (.inr (by simpa using ha))

end Builtin

/-! ## Recorded calls -/

namespace Builtin

theorem recorded_range {f : Builtin} {start : Decimal}
    {combine : Decimal → Decimal → Except ArithmeticError Decimal}
    (hrule : f.rule = .range start combine) (name : String) (lower upper body : Recorded Decimal) :
    f.recorded name [lower, upper, body] = .overRange start combine lower upper body := by
  simp only [recorded, hrule]

theorem recorded_eager {f : Builtin} (hrule : ∀ start combine, f.rule ≠ .range start combine)
    (name : String) {arguments : List (Recorded Decimal)}
    (ha : f.arity.accepts arguments.length = true) :
    f.recorded name arguments = Recorded.all arguments >>= fun values =>
      .silent (f.perform name (values.map pure)) := by
  unfold recorded
  split
  · exact absurd ‹_› (hrule _ _)
  · rw [if_pos ha]

theorem recorded_of_not_accepts {f : Builtin} (name : String) {arguments : List (Recorded Decimal)}
    (ha : f.arity.accepts arguments.length = false) :
    f.recorded name arguments =
      .silent (throw (.argumentCount name f.arity arguments.length)) := by
  unfold recorded
  split
  · rename_i hrule
    rw [← rule_arity, hrule] at ha
    cases ha
  · rw [if_neg (by simp [ha])]

/-- A call repeats a body over a range, or evaluates all its arguments first, or has a wrong
number of them. -/
theorem recorded_cases (f : Builtin) (name : String) (arguments : List (Recorded Decimal)) :
    (∃ start combine lower upper body, f.rule = .range start combine ∧
      arguments = [lower, upper, body] ∧
      f.recorded name arguments = .overRange start combine lower upper body) ∨
    ((∀ start combine, f.rule ≠ .range start combine) ∧
      f.arity.accepts arguments.length = true ∧
      f.recorded name arguments = Recorded.all arguments >>= fun values =>
        .silent (f.perform name (values.map pure))) ∨
    (f.arity.accepts arguments.length = false ∧
      f.recorded name arguments =
        .silent (throw (.argumentCount name f.arity arguments.length))) := by
  obtain ⟨start, combine, lower, upper, body, hrule, rfl⟩ | ⟨hrule, ha⟩ | ha :=
    f.arguments_cases arguments
  · exact .inl ⟨start, combine, lower, upper, body, hrule, rfl, recorded_range hrule name _ _ _⟩
  · exact .inr (.inl ⟨hrule, ha, recorded_eager hrule name ha⟩)
  · exact .inr (.inr ⟨ha, recorded_of_not_accepts name ha⟩)

end Builtin

/-! ## Trees -/

namespace Expr

/-- Induction over trees, where the arguments of a call are all smaller than it. -/
theorem induction {P : Expr → Prop} (num : ∀ value, P (.num value)) (var : ∀ name, P (.var name))
    (unary : ∀ op operand, P operand → P (.unary op operand))
    (binary : ∀ op left right, P left → P right → P (.binary op left right))
    (assign : ∀ target value, P target → P value → P (.assign target value))
    (call : ∀ name f arguments, (∀ a ∈ arguments, P a) → P (.call name f arguments)) (e : Expr) :
    P e :=
  @Expr.rec P (fun arguments => ∀ a ∈ arguments, P a) num var unary binary assign call (by simp)
    (fun first rest hfirst hrest => by simpa using ⟨hfirst, hrest⟩) e

theorem evalAllWith_eq_map (follow : String → Expr → Evaluation Decimal) (arguments : List Expr) :
    evalAllWith follow arguments = arguments.map (evalWith follow) := by
  induction arguments with
  | nil => rfl
  | cons first rest ih => simp [evalAllWith, ih]

theorem eval_eq_evalWith : eval = evalWith fun _ tree => evalTo (followDepth - 1) tree := rfl

theorem exists_evalWith (depth : Nat) : ∃ follow, evalTo depth = evalWith follow := by
  cases depth <;> exact ⟨_, rfl⟩

/-! The evaluation of a tree from those of its parts, to whatever depth the trees of variables are
followed. -/

theorem evalTo_num (value : Decimal) (depth : Nat) : (num value).evalTo depth = pure value := by
  obtain ⟨follow, hfollow⟩ := exists_evalWith depth
  rw [hfollow, evalWith]

theorem evalTo_unary (op : UnaryOp) (operand : Expr) (depth : Nat) :
    (unary op operand).evalTo depth = operand.evalTo depth >>= fun a => .lift (op.eval a) := by
  obtain ⟨follow, hfollow⟩ := exists_evalWith depth
  rw [hfollow, evalWith]

theorem evalTo_binary (op : BinaryOp) (left right : Expr) (depth : Nat) :
    (binary op left right).evalTo depth =
      left.evalTo depth >>= fun a => right.evalTo depth >>= fun b => .lift (op.eval a b) := by
  obtain ⟨follow, hfollow⟩ := exists_evalWith depth
  rw [hfollow, evalWith]

theorem evalTo_call (name : String) (f : Builtin) (arguments : List Expr) (depth : Nat) :
    (call name f arguments).evalTo depth = f.perform name (arguments.map (evalTo depth)) := by
  obtain ⟨follow, hfollow⟩ := exists_evalWith depth
  rw [hfollow, evalWith, evalAllWith_eq_map]

/-- The call of a function of ranges. -/
theorem evalTo_overRange {f : Builtin} {start : Decimal}
    {combine : Decimal → Decimal → Except ArithmeticError Decimal}
    (hrule : f.rule = .range start combine) (name : String) (lower upper body : Expr)
    (depth : Nat) : (call name f [lower, upper, body]).evalTo depth =
      .overRange start combine (lower.evalTo depth) (upper.evalTo depth) (body.evalTo depth) := by
  rw [evalTo_call, Builtin.perform_eq_getD, hrule]
  rfl

theorem eval_num (value : Decimal) : (num value).eval = pure value := evalTo_num value followDepth

theorem eval_unary (op : UnaryOp) (operand : Expr) :
    (unary op operand).eval = operand.eval >>= fun a => .lift (op.eval a) :=
  evalTo_unary op operand followDepth

theorem eval_binary (op : BinaryOp) (left right : Expr) :
    (binary op left right).eval =
      left.eval >>= fun a => right.eval >>= fun b => .lift (op.eval a b) :=
  evalTo_binary op left right followDepth

theorem eval_assign (target value : Expr) :
    (assign target value).eval = .toTarget value.eval target := by
  rw [eval_eq_evalWith, evalWith]

theorem eval_call (name : String) (f : Builtin) (arguments : List Expr) :
    (call name f arguments).eval = f.perform name (arguments.map eval) :=
  evalTo_call name f arguments followDepth

theorem eval_overRange {f : Builtin} {start : Decimal}
    {combine : Decimal → Decimal → Except ArithmeticError Decimal}
    (hrule : f.rule = .range start combine) (name : String) (lower upper body : Expr) :
    (call name f [lower, upper, body]).eval =
      .overRange start combine lower.eval upper.eval body.eval :=
  evalTo_overRange hrule name lower upper body followDepth

theorem recordedAll_eq_map (arguments : List Expr) :
    recordedAll arguments = arguments.map recorded := by
  induction arguments with
  | nil => rfl
  | cons first rest ih => simp [recordedAll, ih]

end Expr

/-! ## Erasing the record -/

namespace Recorded

variable {α β : Type}

@[simp] theorem evaluation_pure (a : α) : (pure a : Recorded α).evaluation = pure a := rfl

@[simp] theorem evaluation_bind (m : Recorded α) (f : α → Recorded β) :
    (m >>= f).evaluation = m.evaluation >>= fun a => (f a).evaluation := rfl

@[simp] theorem evaluation_silent (m : Evaluation α) : (silent m).evaluation = m := rfl

@[simp] theorem evaluation_note (event : Event) : (note event).evaluation = pure () := rfl

@[simp] theorem evaluation_assign (name : String) (value : Decimal) :
    (assign name value).evaluation = .assign name value := rfl

@[simp] theorem evaluation_withLocal (name : String) (body : Recorded α) :
    (withLocal name body).evaluation = .withLocal name body.evaluation := rfl

@[simp] theorem evaluation_toTarget (value : Recorded Decimal) (target : Expr) :
    (toTarget value target).evaluation = .toTarget value.evaluation target := by
  cases target <;> rfl

@[simp] theorem evaluation_all (ms : List (Recorded α)) :
    (all ms).evaluation = .all (ms.map Recorded.evaluation) := by
  induction ms with
  | nil => rfl
  | cons m rest ih => simp [all, Evaluation.all, ih]

@[simp] theorem evaluation_repeatBody
    (combine : Decimal → Decimal → Except ArithmeticError Decimal) (body : Recorded Decimal)
    (count : Nat) (i result : Decimal) :
    (repeatBody combine body count i result).evaluation =
      .repeatBody combine body.evaluation count i result := by
  induction count generalizing i result with
  | zero => rfl
  | succ count ih => simp [repeatBody, Evaluation.repeatBody, ih]

@[simp] theorem evaluation_overRange (start : Decimal)
    (combine : Decimal → Decimal → Except ArithmeticError Decimal)
    (lower upper body : Recorded Decimal) :
    (overRange start combine lower upper body).evaluation =
      .overRange start combine lower.evaluation upper.evaluation body.evaluation := by
  simp [overRange, Evaluation.overRange]

end Recorded

namespace Builtin

@[simp] theorem evaluation_recorded (f : Builtin) (name : String)
    (arguments : List (Recorded Decimal)) :
    (f.recorded name arguments).evaluation =
      f.perform name (arguments.map Recorded.evaluation) := by
  obtain ⟨start, combine, lower, upper, body, hrule, rfl, h⟩ | ⟨hrange, ha, h⟩ | ⟨ha, h⟩ :=
    f.recorded_cases name arguments
  · simp [h, perform_eq_getD, hrule, Rule.perform?]
  · rw [h, perform_eq_all name hrange (by simpa using ha)]
    simp
  · rw [h, perform_of_not_accepts name (by simpa using ha)]
    simp

end Builtin

namespace Expr

/-- Recording changes nothing; without its record it is the evaluation. -/
@[simp] theorem evaluation_recorded (e : Expr) : e.recorded.evaluation = e.eval := by
  induction e using Expr.induction with
  | num value => simp [recorded, eval_num]
  | var name => simp [recorded]
  | unary op operand ih => simp [recorded, eval_unary, ih]
  | binary op left right ihl ihr => simp [recorded, eval_binary, ihl, ihr]
  | assign target value _ ih => simp [recorded, eval_assign, ih]
  | call name f arguments ih =>
    have hall : arguments.map (fun a => a.recorded.evaluation) = arguments.map eval :=
      List.map_congr_left ih
    simp [recorded, recordedAll_eq_map, eval_call, Function.comp_def, hall]

end Expr

end Reckon
