import Reckon.Proofs.Decimal.Fold
import Reckon.Proofs.Evaluation.Completeness

/-!
# Closed forms of ranges

Where the body of a range of integers changes nothing and its value depends on the number of the
turn alone, the range is a fold over those values. That fold has a closed form for two bodies: the
number itself, and a variable that has the same value in all turns. What the operators and functions
give in one step is the same, the failures included.

Results:
* `outcome_repeatBody`, `outcome_range`: the fold that a range of integers is.
* `outcome_closedForm`: ranges against the operations that give the same numbers.
-/

namespace Reckon

namespace Evaluation

variable {P : Environment → Prop} {value : Decimal → Decimal} {body : Evaluation Decimal}
  {combine : Decimal → Decimal → Except ArithmeticError Decimal} {env : Environment}

/-- In environments with the property `P`, which turns keep, the value of the body depends on the
number of the turn alone, and the body changes nothing. -/
def Steady (P : Environment → Prop) (value : Decimal → Decimal) (body : Evaluation Decimal) :
    Prop :=
  ∀ env i, P env → P (env.turn i) ∧ body (env.turn i) = .ok (value i) (env.turn i)

/-- **A steady body is folded** over the integers of its turns. -/
theorem outcome_repeatBody (h : Steady P value body) (hP : P env) (count : ℕ) (m : ℤ)
    (result : Decimal) : (repeatBody combine body count (.ofInt m) result).outcome env =
      (((Decimal.numbers m count).map value).foldlM combine result).mapError .arithmetic := by
  -- on the number of turns, for the integer and the combined value that they begin with
  induction count generalizing env m result with
  | zero => rfl
  | succ count ih =>
    obtain ⟨hP', hbody⟩ := h env (.ofInt m) hP
    have hnext : (Decimal.ofInt m).add .one = .ok (.ofInt (m + 1)) := Decimal.ofInt_add m 1
    rw [Decimal.numbers_succ, List.map_cons, List.foldlM_cons]
    cases hsum : combine result (value (.ofInt m)) with
    | ok sum => rw [outcome, repeatBody_turn hbody hsum hnext, ← outcome, ih hP', ok_bind]
    | error e =>
      have hadvance : advance combine (.ofInt m) result (value (.ofInt m)) = .error e := by
        rw [advance, hsum]
        rfl
      rw [outcome, repeatBody_of_advance_error hbody hadvance]
      rfl

theorem steps_ofInt (m n : ℤ) : steps (.ofInt m) (.ofInt n) = (n + 1 - m).toNat := by
  have hceil : (Decimal.ofInt m).ceil = .ok (.ofInt m) := Decimal.roundToScale_self _ _
  rw [steps, hceil]
  rfl

end Evaluation

namespace Expr

open Evaluation (Steady)

theorem run_num (value : Decimal) (depth : ℕ) (env : Environment) :
    (num value).evalTo depth env = .ok value env := by
  rw [evalTo_num]
  rfl

theorem steady_loopVariable (depth : ℕ) :
    Steady (fun _ => True) id ((var loopVariable).evalTo depth) := by
  refine fun env i _ => ⟨trivial, evalTo_var_of_num ?_ depth⟩
  rw [Environment.turn, Bindings.get?_insert, if_pos rfl]
  rfl

theorem steady_var {x : String} (hx : x ≠ loopVariable) (d : Decimal) (depth : ℕ) :
    Steady (fun env => env.bindings.get? x = some (.num d)) (fun _ => d)
      ((var x).evalTo depth) := by
  intro env i h
  have hturn : (env.turn i).bindings.get? x = some (.num d) := by
    rw [Environment.turn, Bindings.get?_insert, if_neg hx, h]
  exact ⟨hturn, evalTo_var_of_num hturn depth⟩

variable {f : Builtin} {start d : Decimal} {P : Environment → Prop} {value : Decimal → Decimal}
  {combine : Decimal → Decimal → Except ArithmeticError Decimal} {env : Environment} {depth n : ℕ}

/-- The fold that the call of a function of ranges is, if its bounds are integers. -/
theorem outcome_range (hf : f.OfRange start combine) (name : String) (m last : ℤ) {body : Expr}
    (h : Steady P value (body.evalTo depth))
    (hP : P { env with bindings := env.bindings.erase loopVariable }) :
    ((call name f [num (.ofInt m), num (.ofInt last), body]).evalTo depth).outcome env =
      (((Decimal.numbers m (last + 1 - m).toNat).map value).foldlM combine start).mapError
        .arithmetic := by
  have htrunc : Evaluation.lift (Decimal.ofInt last).trunc env = .ok (.ofInt last) env := by
    rw [Decimal.trunc_ofInt]
    rfl
  rw [evalTo_overRange hf.rule, Evaluation.overRange, Evaluation.outcome_bind_of_ok (run_num _ _ _),
    Evaluation.outcome_bind_of_ok (run_num _ _ _), Evaluation.outcome_bind_of_ok htrunc,
    Evaluation.outcome_withLocal, Evaluation.steps_ofInt, Evaluation.outcome_repeatBody h hP]

/-- The product of the integers up to `n`. -/
theorem outcome_product_loopVariable (name : String) (n depth : ℕ) (env : Environment) :
    ((call name .product [num .one, num (.ofInt n), var loopVariable]).evalTo depth).outcome env =
      .ok (.ofInt n.factorial) := by
  have hcount : ((n : ℤ) + 1 - 1).toNat = n := by omega
  refine (outcome_range .product name 1 n (steady_loopVariable depth) trivial).trans ?_
  rw [hcount, List.map_id, Decimal.foldlM_mul_numbers]
  rfl

/-- The sum of the integers up to `n`. -/
theorem outcome_sum_loopVariable (name : String) (n depth : ℕ) (env : Environment) :
    ((call name .sum [num .zero, num (.ofInt n), var loopVariable]).evalTo depth).outcome env =
      .ok (.ofInt (n * (n + 1) / 2 : ℕ)) := by
  have hcount : ((n : ℤ) + 1 - 0).toNat = n + 1 := by omega
  refine (outcome_range .sum name 0 n (steady_loopVariable depth) trivial).trans ?_
  rw [hcount, List.map_id, Decimal.foldlM_add_numbers, Finset.sum_range_id, Nat.add_sub_cancel,
    Nat.mul_comm]
  rfl

/-- The product of `n` times the same number. -/
theorem outcome_product_var {x : String} (hx : x ≠ loopVariable)
    (hd : env.bindings.get? x = some (.num d)) (name : String) (n depth : ℕ) :
    (((call name .product [num .one, num (.ofInt n), var x]).evalTo depth).outcome env).toOption =
      (d.pow n).toOption := by
  have hcount : ((n : ℤ) + 1 - 1).toNat = n := by omega
  have hinside : ({ env with bindings := env.bindings.erase loopVariable } :
      Environment).bindings.get? x = some (.num d) := by
    rw [Bindings.get?_erase, if_neg hx, hd]
  refine (congrArg Except.toOption
    (outcome_range .product name 1 n (steady_var hx d depth) hinside)).trans ?_
  rw [hcount, toOption_mapError, List.map_const', Decimal.length_numbers,
    Decimal.foldlM_mul_replicate, Decimal.mulPow_one]

/-! ## Operations in one step -/

theorem outcome_unary {e : Expr} {a : Decimal} (h : e.evalTo depth env = .ok a env)
    (op : UnaryOp) :
    ((unary op e).evalTo depth).outcome env = (op.eval a).mapError .arithmetic := by
  rw [evalTo_unary, Evaluation.outcome_bind_of_ok h, Evaluation.outcome_lift]

theorem outcome_pow_var {x : String} (hd : env.bindings.get? x = some (.num d)) (hn : n < 2 ^ 32)
    (depth : ℕ) :
    ((binary .pow (var x) (num (.ofInt n))).evalTo depth).outcome env =
      (d.pow n).mapError .arithmetic := by
  rw [evalTo_binary, Evaluation.outcome_bind_of_ok (evalTo_var_of_num hd depth),
    Evaluation.outcome_bind_of_ok (run_num _ _ _), Evaluation.outcome_lift, BinaryOp.eval,
    Decimal.power_ofInt hn]

theorem outcome_call_unary {g : Decimal → Except ArithmeticError Decimal}
    (hrule : f.rule = .unary g) (name : String) {e : Expr} {a : Decimal}
    (h : e.evalTo depth env = .ok a env) :
    ((call name f [e]).evalTo depth).outcome env = (g a).mapError .arithmetic := by
  have hcall : (call name f [e]).evalTo depth = e.evalTo depth >>= fun a => .lift (g a) := by
    rw [evalTo_call, Builtin.perform_eq_getD, hrule]
    rfl
  rw [hcall, Evaluation.outcome_bind_of_ok h, Evaluation.outcome_lift]

/-- **Several ways to one number.** The product of the integers up to `n` is the factorial, their
sum is half of `n * (n + 1)`, and the product of `n` times the same number is its power: both have
that value, or neither has one. -/
theorem outcome_closedForm (n : ℕ) (hn : n < 2 ^ 64) (depth : ℕ) (env : Environment)
    (name : String) :
    ((call name .product [num .one, num (.ofInt n), var loopVariable]).evalTo depth).outcome env =
      .ok (.ofInt n.factorial) ∧
    ((unary .factorial (num (.ofInt n))).evalTo depth).outcome env = .ok (.ofInt n.factorial) ∧
    ((call name .factorial [num (.ofInt n)]).evalTo depth).outcome env =
      .ok (.ofInt n.factorial) ∧
    ((call name .sum [num .zero, num (.ofInt n), var loopVariable]).evalTo depth).outcome env =
      .ok (.ofInt (n * (n + 1) / 2 : ℕ)) ∧
    ∀ (x : String) (d : Decimal), x ≠ loopVariable → env.bindings.get? x = some (.num d) →
      n < 2 ^ 32 →
      (((call name .product [num .one, num (.ofInt n), var x]).evalTo depth).outcome env).toOption =
        (Scale.ofInt? (d.scale.toInt * n)).map (fun s => ⟨d.unscaled ^ n, s⟩) ∧
      (((binary .pow (var x) (num (.ofInt n))).evalTo depth).outcome env).toOption =
        (Scale.ofInt? (d.scale.toInt * n)).map (fun s => ⟨d.unscaled ^ n, s⟩) := by
  have hfactorial : (Decimal.factorial (.ofInt n)).mapError .arithmetic =
      (.ok (.ofInt n.factorial) : Except EvalError Decimal) := by
    rw [Decimal.factorial_ofInt hn]
    rfl
  refine ⟨outcome_product_loopVariable name n depth env, ?operator, ?function,
    outcome_sum_loopVariable name n depth env, fun x d hx hd hn' => ⟨?product, ?power⟩⟩
  case operator => rw [outcome_unary (run_num _ _ _), UnaryOp.eval, hfactorial]
  case function => rw [outcome_call_unary rfl name (run_num _ _ _), hfactorial]
  case product => rw [outcome_product_var hx hd, Decimal.toOption_pow]
  case power => rw [outcome_pow_var hd hn', toOption_mapError, Decimal.toOption_pow]

/-- The scale of this square does not fit: there is no product of two such numbers either. -/
theorem outcome_closedForm_square :
    let d : Decimal := ⟨7, ⟨4611686018427387904, by decide, by decide⟩⟩
    let env : Environment := ⟨Bindings.empty.insert "x" (.num d), default⟩
    ((call "sum" .sum [num .zero, num (.ofInt 2), var "i"]).evalTo followDepth).outcome env =
      .ok (.ofInt 3) ∧
    (((call "product" .product [num .one, num (.ofInt 2), var "x"]).evalTo followDepth).outcome
      env).toOption = none ∧
    (((binary .pow (var "x") (num (.ofInt 2))).evalTo followDepth).outcome env).toOption =
      none := by
  intro d env
  have hx : "x" ≠ loopVariable := by decide
  have hd : env.bindings.get? "x" = some (.num d) := rfl
  obtain ⟨-, -, -, hsum, -⟩ := outcome_closedForm 2 (by decide) followDepth env "sum"
  obtain ⟨-, -, -, -, hpower⟩ := outcome_closedForm 2 (by decide) followDepth env "product"
  obtain ⟨hproduct, hpower⟩ := hpower "x" d hx hd (by decide)
  exact ⟨hsum, hproduct, hpower⟩

end Expr

end Reckon
