import Reckon.Proofs.Evaluation.Frame
import Reckon.Proofs.Evaluation.Range

/-!
# Evaluation without bounds

`Evaluates e env r` says that the evaluation of a tree ends with the result `r`, a value or an error
together with the environment that it leaves behind. There is a rule for each way to go on, with no
bound on the depth to which the trees of variables are followed. A range tests its variable against
the upper bound before each turn (`Repeats`), with no count of its turns set beforehand. So a
derivation is a run that ends; a variable that is bound to itself has none.

Where all variables are bound to numbers every tree has a derivation, by induction on the tree: an
evaluation leaves such bindings behind, so the number that a variable is bound to ends its
evaluation, and the distance to the upper bound ends a range, since the body has no part in the
number that is tested.

Results:
* `not_evaluates_self`: the evaluation of a variable that is bound to itself does not end.
* `Repeats.count_le`: how many turns a range makes at most.
* `evaluates_iff`: where all variables are bound to numbers, the evaluation of every tree ends, and
  with the result that `Expr.eval` gives.
-/

namespace Reckon

namespace Evaluation

/-- How an evaluation ends: with a value or an error, and with an environment in both cases. -/
abbrev Ending (α : Type) := EStateM.Result EvalError Environment α

variable {α β : Type}

/-- What follows the end of an evaluation, unless that is an error. -/
def andThen (r : Ending α) (f : α → Evaluation β) : Ending β :=
  match r with
  | .ok a env => f a env
  | .error e env => .error e env

theorem bind_eq_andThen (m : Evaluation α) (f : α → Evaluation β) (env : Environment) :
    (m >>= f) env = andThen (m env) f := by
  cases h : m env with
  | ok a env₁ => exact bind_of_ok h
  | error e env₁ => exact bind_of_error h

/-- The end of an evaluation with a variable bound as it was before. -/
def restoring (name : String) (saved : Option Expr) (r : Ending α) : Ending α :=
  match r with
  | .ok a env => .ok a { env with bindings := env.bindings.restore name saved }
  | .error e env => .error e { env with bindings := env.bindings.restore name saved }

theorem withLocal_eq_restoring (name : String) (body : Evaluation α) (env : Environment) :
    withLocal name body env = restoring name (env.bindings.get? name)
      (body { env with bindings := env.bindings.erase name }) := by
  unfold withLocal restoring
  cases body { env with bindings := env.bindings.erase name } <;> rfl

/-- The combined value and the number of the next turn, after a turn whose body has the value. -/
def advance (combine : Decimal → Decimal → Except ArithmeticError Decimal)
    (i result value : Decimal) : Except ArithmeticError (Decimal × Decimal) := do
  let result ← combine result value
  let i ← i.add .one
  return (i, result)

theorem advance_ok {combine : Decimal → Decimal → Except ArithmeticError Decimal}
    {i result value : Decimal} {p : Decimal × Decimal}
    (h : advance combine i result value = .ok p) : i.add .one = .ok p.1 := by
  obtain ⟨sum, -, h⟩ := bind_ok h
  obtain ⟨next, hnext, h⟩ := bind_ok h
  cases h
  exact hnext

end Evaluation

open Evaluation

/-- The environment of a turn: the variable of ranges is bound to the number of the turn. -/
def Environment.turn (env : Environment) (i : Decimal) : Environment :=
  { env with bindings := env.bindings.insert loopVariable (.num i) }

mutual

/-- The evaluation of a tree ends so. -/
inductive Evaluates : Expr → Environment → Ending Decimal → Prop
  | num {value : Decimal} {env : Environment} : Evaluates (.num value) env (.ok value env)
  | unbound {name : String} {env : Environment} (h : env.bindings.get? name = none) :
      Evaluates (.var name) env (.error (.unknownVariable name) env)
  /-- The tree that the variable is bound to is evaluated. -/
  | var {name : String} {tree : Expr} {env : Environment} {r : Ending Decimal}
      (hname : env.bindings.get? name = some tree) (h : Evaluates tree env r) :
      Evaluates (.var name) env r
  | unary {op : UnaryOp} {operand : Expr} {env : Environment} {r : Ending Decimal}
      (h : Evaluates operand env r) :
      Evaluates (.unary op operand) env (andThen r fun a => lift (op.eval a))
  | binaryFails {op : BinaryOp} {left right : Expr} {env env₁ : Environment} {e : EvalError}
      (h : Evaluates left env (.error e env₁)) :
      Evaluates (.binary op left right) env (.error e env₁)
  | binary {op : BinaryOp} {left right : Expr} {env env₁ : Environment} {a : Decimal}
      {r : Ending Decimal} (hl : Evaluates left env (.ok a env₁)) (hr : Evaluates right env₁ r) :
      Evaluates (.binary op left right) env (andThen r fun b => lift (op.eval a b))
  | assign {name : String} {value : Expr} {env : Environment} {r : Ending Decimal}
      (h : Evaluates value env r) :
      Evaluates (.assign (.var name) value) env
        (andThen r fun a => do
          Evaluation.assign name a
          return a)
  | notAssignable {target value : Expr} {env : Environment} (h : ∀ name, target ≠ .var name) :
      Evaluates (.assign target value) env (.error (.notAssignable target) env)
  | argumentCount {name : String} {f : Builtin} {arguments : List Expr} {env : Environment}
      (h : f.arity.accepts arguments.length = false) :
      Evaluates (.call name f arguments) env
        (.error (.argumentCount name f.arity arguments.length) env)
  /-- The function is applied to the values of its arguments. -/
  | call {name : String} {f : Builtin} {arguments : List Expr} {env : Environment}
      {r : Ending (List Decimal)} (hrule : ∀ start combine, f.rule ≠ .range start combine)
      (ha : f.arity.accepts arguments.length = true) (h : EvaluatesAll arguments env r) :
      Evaluates (.call name f arguments) env
        (andThen r fun values => f.perform name (values.map pure))
  | lowerFails {name : String} {f : Builtin} {start : Decimal}
      {combine : Decimal → Decimal → Except ArithmeticError Decimal} {lower upper body : Expr}
      {env env₁ : Environment} {e : EvalError} (hrule : f.rule = .range start combine)
      (hl : Evaluates lower env (.error e env₁)) :
      Evaluates (.call name f [lower, upper, body]) env (.error e env₁)
  | upperFails {name : String} {f : Builtin} {start first : Decimal}
      {combine : Decimal → Decimal → Except ArithmeticError Decimal} {lower upper body : Expr}
      {env env₁ env₂ : Environment} {e : EvalError} (hrule : f.rule = .range start combine)
      (hl : Evaluates lower env (.ok first env₁)) (hu : Evaluates upper env₁ (.error e env₂)) :
      Evaluates (.call name f [lower, upper, body]) env (.error e env₂)
  | truncFails {name : String} {f : Builtin} {start first bound : Decimal}
      {combine : Decimal → Decimal → Except ArithmeticError Decimal} {lower upper body : Expr}
      {env env₁ env₂ : Environment} {e : ArithmeticError} (hrule : f.rule = .range start combine)
      (hl : Evaluates lower env (.ok first env₁)) (hu : Evaluates upper env₁ (.ok bound env₂))
      (ht : bound.trunc = .error e) :
      Evaluates (.call name f [lower, upper, body]) env (.error (.arithmetic e) env₂)
  | range {name : String} {f : Builtin} {start first bound last : Decimal}
      {combine : Decimal → Decimal → Except ArithmeticError Decimal} {lower upper body : Expr}
      {env env₁ env₂ : Environment} {count : Nat} {r : Ending Decimal}
      (hrule : f.rule = .range start combine) (hl : Evaluates lower env (.ok first env₁))
      (hu : Evaluates upper env₁ (.ok bound env₂)) (ht : bound.trunc = .ok last)
      (hr : Repeats combine body last count first start
        { env₂ with bindings := env₂.bindings.erase loopVariable } r) :
      Evaluates (.call name f [lower, upper, body]) env
        (restoring loopVariable (env₂.bindings.get? loopVariable) r)

/-- The evaluation of several trees, one after the other, ends so. -/
inductive EvaluatesAll : List Expr → Environment → Ending (List Decimal) → Prop
  | nil {env : Environment} : EvaluatesAll [] env (.ok [] env)
  | fails {first : Expr} {rest : List Expr} {env env₁ : Environment} {e : EvalError}
      (h : Evaluates first env (.error e env₁)) : EvaluatesAll (first :: rest) env (.error e env₁)
  | cons {first : Expr} {rest : List Expr} {env env₁ : Environment} {value : Decimal}
      {r : Ending (List Decimal)} (h : Evaluates first env (.ok value env₁))
      (hr : EvaluatesAll rest env₁ r) :
      EvaluatesAll (first :: rest) env (andThen r fun values => pure (value :: values))

/-- The turns of a range from the number `i` on, as many as given, end so. -/
inductive Repeats : (Decimal → Decimal → Except ArithmeticError Decimal) → Expr → Decimal → Nat →
    Decimal → Decimal → Environment → Ending Decimal → Prop
  /-- The number is beyond the upper bound. -/
  | done {combine : Decimal → Decimal → Except ArithmeticError Decimal} {body : Expr}
      {last i result : Decimal} {env : Environment} (hi : i.leValue last = false) :
      Repeats combine body last 0 i result env (.ok result env)
  | bodyFails {combine : Decimal → Decimal → Except ArithmeticError Decimal} {body : Expr}
      {last i result : Decimal} {env env₁ : Environment} {e : EvalError}
      (hi : i.leValue last = true) (hb : Evaluates body (env.turn i) (.error e env₁)) :
      Repeats combine body last 1 i result env (.error e env₁)
  | advanceFails {combine : Decimal → Decimal → Except ArithmeticError Decimal} {body : Expr}
      {last i result value : Decimal} {env env₁ : Environment} {e : ArithmeticError}
      (hi : i.leValue last = true) (hb : Evaluates body (env.turn i) (.ok value env₁))
      (hs : advance combine i result value = .error e) :
      Repeats combine body last 1 i result env (.error (.arithmetic e) env₁)
  | turn {combine : Decimal → Decimal → Except ArithmeticError Decimal} {body : Expr}
      {last i result value next sum : Decimal} {env env₁ : Environment} {count : Nat}
      {r : Ending Decimal} (hi : i.leValue last = true)
      (hb : Evaluates body (env.turn i) (.ok value env₁))
      (hs : advance combine i result value = .ok (next, sum))
      (hr : Repeats combine body last count next sum env₁ r) :
      Repeats combine body last (count + 1) i result env r

end

theorem Evaluates.ne_self {e : Expr} {env : Environment} {r : Ending Decimal} :
    Evaluates e env r → ∀ {name : String}, env.bindings.get? name = some (.var name) →
      e ≠ .var name
  | .unbound h, _, hself, he => by
    cases he
    rw [h] at hself
    cases hself
  | .var hname h, _, hself, he => by
    have hne := h.ne_self hself
    cases he
    rw [hself] at hname
    exact hne (Option.some.inj hname).symm
  | .num, _, _, he | .unary _, _, _, he | .binaryFails _, _, _, he | .binary _ _, _, _, he
  | .assign _, _, _, he | .notAssignable _, _, _, he | .argumentCount _, _, _, he
  | .call _ _ _, _, _, he | .lowerFails _ _, _, _, he | .upperFails _ _ _, _, _, he
  | .truncFails _ _ _ _, _, _, he | .range _ _ _ _ _, _, _, he => nomatch he

/-- The evaluation of a variable that is bound to itself does not end. -/
theorem not_evaluates_self {name : String} {env : Environment} {r : Ending Decimal}
    (hself : env.bindings.get? name = some (.var name)) : ¬ Evaluates (.var name) env r :=
  fun h => h.ne_self hself rfl

/-! ## The turns of a range -/

/-- **A range makes at most as many turns as there are numbers `i`, `i + 1`, … up to the upper
bound**, whatever its body does. -/
theorem Repeats.count_le {combine : Decimal → Decimal → Except ArithmeticError Decimal}
    {body : Expr} {last : Decimal} {count : Nat} {i result : Decimal} {env : Environment}
    {r : Ending Decimal} : Repeats combine body last count i result env r →
      (count : ℤ) ≤ max 0 (⌊last.value - i.value⌋ + 1)
  | .done _ => le_max_left _ _
  | .bodyFails hi _ | .advanceFails hi _ _ => by
    have hfloor : 0 ≤ ⌊last.value - i.value⌋ :=
      Int.floor_nonneg.mpr (sub_nonneg.mpr (Decimal.leValue_iff.mp hi))
    push_cast
    omega
  | .turn hi _ hs hr => by
    have hfloor : 0 ≤ ⌊last.value - i.value⌋ :=
      Int.floor_nonneg.mpr (sub_nonneg.mpr (Decimal.leValue_iff.mp hi))
    -- the next number is larger by one, whatever the body bound its variable to
    have hmore := hr.count_le
    rw [(Decimal.value_add (advance_ok hs)).1, Decimal.value_one, ← sub_sub, Int.floor_sub_one]
      at hmore
    push_cast
    omega

namespace Evaluation

variable {i last next : Decimal}

/-- The lower bound of the next turn can be written out. -/
theorem exists_ceil_next (hnext : i.add .one = .ok next) : ∃ least, next.ceil = .ok least := by
  have hscale : ¬ next.scale.toInt < Scale.zero.toInt := by
    rw [(Decimal.value_add hnext).2, Scale.toInt_max]
    split
    · exact lt_irrefl _
    · next h => exact fun hlt => h (hlt.le)
  exact ⟨_, if_neg hscale⟩

theorem le_iff_ceil_le (hlast : last.scale = .zero) :
    i.leValue last = true ↔ ⌈i.value⌉ ≤ ⌊last.value⌋ := by
  rw [Decimal.leValue_iff, Int.ceil_le, Decimal.value_of_scale_eq_zero hlast, Int.floor_intCast]

/-- Beyond the upper bound no steps are left. -/
theorem steps_of_beyond (hlast : last.scale = .zero) (hi : i.leValue last = false) :
    steps i last = 0 := by
  have hlt : last.value < i.value := by
    rw [← not_le, ← Decimal.leValue_iff, hi]
    exact Bool.false_ne_true
  have hle := mt (le_iff_ceil_le hlast (i := i)).mpr (by rw [hi]; exact Bool.false_ne_true)
  rw [steps_eq hlast (.inr hlt)]
  omega

/-- Up to the upper bound at least one step is left. -/
theorem exists_steps_succ (hlast : last.scale = .zero) (hi : i.leValue last = true) :
    ∃ count, steps i last = count + 1 := by
  cases hceil : i.ceil with
  | ok least =>
    have hle := (le_iff_ceil_le hlast).mp hi
    rw [steps_eq hlast (.inl ⟨least, hceil⟩)]
    exact ⟨(⌊last.value⌋ - ⌈i.value⌉).toNat, by omega⟩
  | error error => exact ⟨0, by simp only [steps, hceil, if_pos hi]⟩

/-- Each turn takes one step. -/
theorem steps_next (hlast : last.scale = .zero) (hi : i.leValue last = true)
    (hnext : i.add .one = .ok next) : steps i last = steps next last + 1 := by
  cases hceil : i.ceil with
  | error error =>
    obtain ⟨error, herror⟩ := Decimal.add_one_of_ceil_error hceil
    rw [hnext] at herror
    cases herror
  | ok least =>
    have hle := (le_iff_ceil_le hlast).mp hi
    rw [steps_eq hlast (.inl ⟨least, hceil⟩), steps_eq hlast (.inl (exists_ceil_next hnext)),
      (Decimal.value_add hnext).1, Decimal.value_one, Int.ceil_add_one]
    omega

/-- One turn of the loop that counts its steps. -/
theorem repeatBody_succ (combine : Decimal → Decimal → Except ArithmeticError Decimal)
    (body : Evaluation Decimal) (count : Nat) (i result : Decimal) (env : Environment) :
    repeatBody combine body (count + 1) i result env =
      andThen (body (env.turn i)) fun value =>
        lift (advance combine i result value) >>= fun p =>
          repeatBody combine body count p.1 p.2 := by
  have hassign : Evaluation.assign loopVariable i env = .ok () (env.turn i) := rfl
  rw [repeatBody, bind_of_ok hassign, bind_eq_andThen]
  congr 1
  funext value
  unfold advance
  cases combine result value with
  | error e => rfl
  | ok sum => cases i.add .one <;> rfl

theorem toTarget_of_not_var {target : Expr} (h : ∀ name, target ≠ .var name)
    (value : Evaluation Decimal) : toTarget value target = throw (.notAssignable target) := by
  cases target with
  | var name => exact absurd rfl (h name)
  | _ => rfl

theorem all_cons (first : Evaluation α) (rest : List (Evaluation α)) (env : Environment) :
    all (first :: rest) env =
      andThen (first env) fun value => all rest >>= fun values => pure (value :: values) :=
  bind_eq_andThen _ _ env

/-- The evaluation of a range ends as its turns end, with its variable bound as before. -/
theorem overRange_eq {start first bound last : Decimal}
    {combine : Decimal → Decimal → Except ArithmeticError Decimal}
    {lower upper body : Evaluation Decimal} {env env₁ env₂ : Environment}
    (hl : lower env = .ok first env₁) (hu : upper env₁ = .ok bound env₂)
    (ht : bound.trunc = .ok last) :
    overRange start combine lower upper body env =
      restoring loopVariable (env₂.bindings.get? loopVariable)
        (repeatBody combine body (steps first last) first start
          { env₂ with bindings := env₂.bindings.erase loopVariable }) := by
  have hlift : lift bound.trunc env₂ = .ok last env₂ := by
    rw [ht]
    rfl
  rw [overRange, bind_of_ok hl, bind_of_ok hu, bind_of_ok hlift, withLocal_eq_restoring]

end Evaluation

/-! ## Every evaluation ends -/

theorem Bindings.Literal.turn {env : Environment} (henv : env.bindings.Literal) (i : Decimal) :
    (env.turn i).bindings.Literal :=
  henv.insert loopVariable i

theorem trunc_scale {bound last : Decimal} (ht : bound.trunc = .ok last) : last.scale = .zero :=
  (Decimal.roundToScale_ok ht).1

mutual

/-- **A run that ends does so with the result of the evaluation.** -/
theorem Evaluates.eval_eq {e : Expr} {env : Environment} {r : Ending Decimal} :
    Evaluates e env r → env.bindings.Literal → e.eval env = r
  | .num, _ => by
    rw [Expr.eval_num]
    rfl
  | .unbound h, _ => Expr.eval_var_of_none h
  | .var hname h, henv => by
    have htree := h.eval_eq henv
    obtain ⟨value, rfl⟩ := henv _ _ hname
    rw [Expr.eval_var_of_num hname, ← htree, Expr.eval_num]
    rfl
  | .unary h, henv => by rw [Expr.eval_unary, bind_eq_andThen, h.eval_eq henv]
  | .binaryFails h, henv => by rw [Expr.eval_binary, bind_of_error (h.eval_eq henv)]
  | .binary hl hr, henv => by
    have hleft := hl.eval_eq henv
    have hright := hr.eval_eq (Expr.literal_of_eval_ok henv hleft)
    rw [Expr.eval_binary, bind_of_ok hleft, bind_eq_andThen, hright]
  | .assign h, henv => by rw [Expr.eval_assign, toTarget, bind_eq_andThen, h.eval_eq henv]
  | .notAssignable h, _ => by
    rw [Expr.eval_assign, toTarget_of_not_var h]
    rfl
  | .argumentCount h, _ => by
    rw [Expr.eval_call, Builtin.perform_of_not_accepts _ (by rwa [List.length_map]),
      List.length_map]
    rfl
  | .call hrule ha h, henv => by
    rw [Expr.eval_call, Builtin.perform_eq_all _ hrule (by rwa [List.length_map]),
      bind_eq_andThen, h.all_eq henv]
  | .lowerFails hrule hl, henv => by
    rw [Expr.eval_overRange hrule, overRange, bind_of_error (hl.eval_eq henv)]
  | .upperFails hrule hl hu, henv => by
    have hlower := hl.eval_eq henv
    have hupper := hu.eval_eq (Expr.literal_of_eval_ok henv hlower)
    rw [Expr.eval_overRange hrule, overRange, bind_of_ok hlower, bind_of_error hupper]
  | .truncFails hrule hl hu ht, henv => by
    have hlower := hl.eval_eq henv
    have hupper := hu.eval_eq (Expr.literal_of_eval_ok henv hlower)
    rw [Expr.eval_overRange hrule, overRange, bind_of_ok hlower, bind_of_ok hupper, ht]
    rfl
  | .range hrule hl hu ht hr, henv => by
    have hlower := hl.eval_eq henv
    have henv₁ := Expr.literal_of_eval_ok henv hlower
    have hupper := hu.eval_eq henv₁
    have henv₂ := Expr.literal_of_eval_ok henv₁ hupper
    rw [Expr.eval_overRange hrule, overRange_eq hlower hupper ht,
      hr.repeatBody_eq (henv₂.erase loopVariable) (trunc_scale ht)]

theorem EvaluatesAll.all_eq {arguments : List Expr} {env : Environment}
    {r : Ending (List Decimal)} :
    EvaluatesAll arguments env r → env.bindings.Literal → all (arguments.map Expr.eval) env = r
  | .nil, _ => rfl
  | .fails h, henv => by rw [List.map_cons, all_cons, h.eval_eq henv]; rfl
  | .cons h hr, henv => by
    have hfirst := h.eval_eq henv
    have hrest := hr.all_eq (Expr.literal_of_eval_ok henv hfirst)
    rw [List.map_cons, all_cons, hfirst, andThen, bind_eq_andThen, hrest]

theorem Repeats.repeatBody_eq {combine : Decimal → Decimal → Except ArithmeticError Decimal}
    {body : Expr} {last : Decimal} {count : Nat} {i result : Decimal} {env : Environment}
    {r : Ending Decimal} :
    Repeats combine body last count i result env r → env.bindings.Literal → last.scale = .zero →
      repeatBody combine body.eval (steps i last) i result env = r
  | .done hi, _, hlast => by
    rw [steps_of_beyond hlast hi]
    rfl
  | .bodyFails hi hb, henv, hlast => by
    obtain ⟨more, hsteps⟩ := exists_steps_succ hlast hi
    rw [hsteps, repeatBody_succ, hb.eval_eq (henv.turn _)]
    rfl
  | .advanceFails hi hb hs, henv, hlast => by
    obtain ⟨more, hsteps⟩ := exists_steps_succ hlast hi
    rw [hsteps, repeatBody_succ, hb.eval_eq (henv.turn _), andThen, hs]
    rfl
  | .turn hi hb hs hr, henv, hlast => by
    have hbody := hb.eval_eq (henv.turn _)
    have hmore := hr.repeatBody_eq (Expr.literal_of_eval_ok (henv.turn _) hbody) hlast
    rw [steps_next hlast hi (advance_ok hs), repeatBody_succ, hbody, andThen, hs]
    exact hmore

end

theorem evaluatesAll_eval {arguments : List Expr}
    (ih : ∀ a ∈ arguments, ∀ env : Environment, env.bindings.Literal →
      Evaluates a env (a.eval env)) {env : Environment} (henv : env.bindings.Literal) :
    EvaluatesAll arguments env (all (arguments.map Expr.eval) env) := by
  induction arguments generalizing env with
  | nil => exact .nil
  | cons first rest ihrest =>
    have hfirst := ih first List.mem_cons_self env henv
    rw [List.map_cons, all_cons]
    cases hrun : first.eval env with
    | error e env₁ =>
      rw [hrun] at hfirst
      exact .fails hfirst
    | ok value env₁ =>
      rw [hrun] at hfirst
      have hrest := ihrest (fun a ha => ih a (List.mem_cons_of_mem _ ha))
        (Expr.literal_of_eval_ok henv hrun)
      rw [andThen, bind_eq_andThen]
      exact .cons hfirst hrest

/-- The turns of a range end if its body always ends: each turn takes one of the steps that are left
before the upper bound. -/
theorem repeats_repeatBody (combine : Decimal → Decimal → Except ArithmeticError Decimal)
    {body : Expr} {last : Decimal} (hlast : last.scale = .zero)
    (ih : ∀ env : Environment, env.bindings.Literal → Evaluates body env (body.eval env))
    (i result : Decimal) (env : Environment) (henv : env.bindings.Literal) :
    ∃ turns, Repeats combine body last turns i result env
      (repeatBody combine body.eval (steps i last) i result env) := by
  -- on the steps that are left; that is none just beyond the upper bound
  induction hsteps : steps i last generalizing i result env with
  | zero =>
    refine ⟨0, .done ?_⟩
    by_contra hi
    obtain ⟨count, hcount⟩ := exists_steps_succ hlast (Bool.eq_true_of_not_eq_false hi)
    omega
  | succ count ihcount =>
    have hi : i.leValue last = true := by
      by_contra hi
      have hzero := steps_of_beyond hlast (Bool.eq_false_of_not_eq_true hi)
      omega
    have hbody := ih (env.turn i) (henv.turn i)
    rw [repeatBody_succ]
    cases hrun : body.eval (env.turn i) with
    | error e env₁ =>
      rw [hrun] at hbody
      exact ⟨1, .bodyFails hi hbody⟩
    | ok value env₁ =>
      rw [hrun] at hbody
      rw [andThen]
      cases hs : advance combine i result value with
      | error e => exact ⟨1, .advanceFails hi hbody hs⟩
      | ok p =>
        have hnext := steps_next hlast hi (advance_ok hs)
        have henv₁ := Expr.literal_of_eval_ok (henv.turn i) hrun
        obtain ⟨turns, hturns⟩ := ihcount p.1 p.2 env₁ henv₁ (by omega)
        exact ⟨turns + 1, .turn hi hbody hs hturns⟩

theorem evaluates_overRange {name : String} {f : Builtin} {start : Decimal}
    {combine : Decimal → Decimal → Except ArithmeticError Decimal} {lower upper body : Expr}
    (hrule : f.rule = .range start combine)
    (ih : ∀ a ∈ [lower, upper, body], ∀ env : Environment, env.bindings.Literal →
      Evaluates a env (a.eval env)) {env : Environment} (henv : env.bindings.Literal) :
    Evaluates (.call name f [lower, upper, body]) env
      (overRange start combine lower.eval upper.eval body.eval env) := by
  have hlower := ih lower (by simp) env henv
  cases hl : lower.eval env with
  | error e env₁ =>
    rw [hl] at hlower
    rw [overRange, bind_of_error hl]
    exact .lowerFails hrule hlower
  | ok first env₁ =>
    rw [hl] at hlower
    have henv₁ := Expr.literal_of_eval_ok henv hl
    have hupper := ih upper (by simp) env₁ henv₁
    cases hu : upper.eval env₁ with
    | error e env₂ =>
      rw [hu] at hupper
      rw [overRange, bind_of_ok hl, bind_of_error hu]
      exact .upperFails hrule hlower hupper
    | ok bound env₂ =>
      rw [hu] at hupper
      have henv₂ := Expr.literal_of_eval_ok henv₁ hu
      cases ht : bound.trunc with
      | error e =>
        rw [overRange, bind_of_ok hl, bind_of_ok hu, ht]
        exact .truncFails hrule hlower hupper ht
      | ok last =>
        obtain ⟨turns, hturns⟩ := repeats_repeatBody combine (trunc_scale ht) (ih body (by simp))
          first start { env₂ with bindings := env₂.bindings.erase loopVariable }
          (henv₂.erase loopVariable)
        rw [overRange_eq hl hu ht]
        exact .range hrule hlower hupper ht hturns

/-- **The evaluation of every tree ends**, where all variables are bound to numbers. -/
theorem evaluates_eval (e : Expr) : ∀ env : Environment, env.bindings.Literal →
    Evaluates e env (e.eval env) := by
  induction e using Expr.induction with
  | num value =>
    intro env _
    rw [Expr.eval_num]
    exact .num
  | var name =>
    intro env henv
    cases hname : env.bindings.get? name with
    | none =>
      rw [Expr.eval_var_of_none hname]
      exact .unbound hname
    | some tree =>
      obtain ⟨value, rfl⟩ := henv name tree hname
      rw [Expr.eval_var_of_num hname]
      exact .var hname .num
  | unary op operand ih =>
    intro env henv
    rw [Expr.eval_unary, bind_eq_andThen]
    exact .unary (ih env henv)
  | binary op left right ihl ihr =>
    intro env henv
    have hleft := ihl env henv
    rw [Expr.eval_binary]
    cases hl : left.eval env with
    | error e env₁ =>
      rw [hl] at hleft
      rw [bind_of_error hl]
      exact .binaryFails hleft
    | ok a env₁ =>
      rw [hl] at hleft
      rw [bind_of_ok hl, bind_eq_andThen]
      exact .binary hleft (ihr env₁ (Expr.literal_of_eval_ok henv hl))
  | assign target value _ ih =>
    intro env henv
    rw [Expr.eval_assign]
    by_cases htarget : ∃ name, target = .var name
    · obtain ⟨name, rfl⟩ := htarget
      rw [toTarget, bind_eq_andThen]
      exact .assign (ih env henv)
    · have htarget := not_exists.mp htarget
      rw [toTarget_of_not_var htarget]
      exact .notAssignable htarget
  | call name f arguments ih =>
    intro env henv
    obtain ⟨start, combine, lower, upper, body, hrule, rfl⟩ | ⟨hrule, ha⟩ | ha :=
      f.arguments_cases arguments
    · rw [Expr.eval_overRange hrule]
      exact evaluates_overRange hrule ih henv
    · rw [Expr.eval_call, Builtin.perform_eq_all name hrule (by rwa [List.length_map]),
        bind_eq_andThen]
      exact .call hrule ha (evaluatesAll_eval ih henv)
    · rw [Expr.eval_call, Builtin.perform_of_not_accepts name (by rwa [List.length_map]),
        List.length_map]
      exact .argumentCount ha

/-- **Where all variables are bound to numbers, an evaluation ends with the result that `Expr.eval`
gives, and with no other.** -/
theorem evaluates_iff {e : Expr} {env : Environment} {r : Ending Decimal}
    (henv : env.bindings.Literal) : Evaluates e env r ↔ e.eval env = r :=
  ⟨fun h => h.eval_eq henv, fun h => h ▸ evaluates_eval e env henv⟩

end Reckon
