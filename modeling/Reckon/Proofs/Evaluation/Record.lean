import Reckon.Evaluation.Expr

/-!
# Evaluations with a record

An evaluation shows what it did only by the environment that it leaves behind. A `Recorded` one
also gives the events that it goes through: each assignment when it is complete and each operator
when it is applied to the values of its operands. An error ends the record, and what happened before
stays in it. A range takes the assignments of its own variable out of the record of its body, since
they do not outlast the range.

Results:
* `lastAssigned?_append`, `lastAssigned?_filter`: the last assignment in a record.
* `bind_eq_ok`, `withLocal_eq_ok`: how a computation in several steps runs.
* `events_bind_of_ok`, `events_bind_of_error`: what it goes through.
-/

namespace Reckon

/-- Something that an evaluation does. -/
inductive Event
  /-- The assignment of a number to a variable is complete. -/
  | assigned (name : String) (value : Decimal)
  /-- An operator is applied to two numbers. -/
  | applied (op : BinaryOp) (left right : Decimal)
deriving DecidableEq

/-- The number that an event assigns to the variable. -/
def Event.value? (name : String) : Event → Option Decimal
  | assigned target value => if target = name then some value else none
  | applied .. => none

/-- The number that was assigned to the variable last. -/
def lastAssigned? (name : String) (events : List Event) : Option Decimal :=
  events.reverse.findSome? (Event.value? name)

@[simp] theorem lastAssigned?_nil (name : String) : lastAssigned? name [] = none := rfl

@[simp] theorem lastAssigned?_append (name : String) (events more : List Event) :
    lastAssigned? name (events ++ more) =
      (lastAssigned? name more).or (lastAssigned? name events) := by
  simp [lastAssigned?]

@[simp] theorem lastAssigned?_assigned (name target : String) (value : Decimal) :
    lastAssigned? name [.assigned target value] = if target = name then some value else none := by
  simp [lastAssigned?, Event.value?]

@[simp] theorem lastAssigned?_applied (name : String) (op : BinaryOp) (a b : Decimal) :
    lastAssigned? name [.applied op a b] = none := by
  simp [lastAssigned?, Event.value?]

/-- The events of a body without the assignments of its own variable. -/
theorem lastAssigned?_filter (own name : String) (events : List Event) :
    lastAssigned? name (events.filter fun event => (event.value? own).isNone) =
      if name = own then none else lastAssigned? name events := by
  by_cases h : name = own
  · simp [h, lastAssigned?, List.findSome?_eq_none_iff]
  · rw [if_neg h]
    induction events with
    | nil => rfl
    | cons event rest ih =>
      rw [← List.singleton_append, List.filter_append, lastAssigned?_append,
        lastAssigned?_append, ih]
      cases event with
      | applied => simp [Event.value?]
      | assigned target value =>
        by_cases ht : target = own
        · have : own ≠ name := fun heq => h heq.symm
          simp [Event.value?, ht, this]
        · simp [Event.value?, ht]

theorem lastAssigned?_eq_some {name : String} {value : Decimal} {events : List Event}
    (h : lastAssigned? name events = some value) : .assigned name value ∈ events := by
  obtain ⟨event, hmem, hevent⟩ := List.exists_of_findSome?_eq_some h
  cases event with
  | applied => cases hevent
  | assigned target v =>
    by_cases ht : target = name
    · rw [Event.value?, if_pos ht] at hevent
      cases hevent
      subst ht
      exact List.mem_reverse.mp hmem
    · rw [Event.value?, if_neg ht] at hevent
      cases hevent

namespace Evaluation

variable {α β : Type}

/-- The value or the error of a computation. -/
def outcome (m : Evaluation α) (env : Environment) : Except EvalError α :=
  match m env with
  | .ok a _ => .ok a
  | .error e _ => .error e

/-- The environment that a computation leaves behind, whether it succeeds or fails. -/
def after (m : Evaluation α) (env : Environment) : Environment :=
  match m env with
  | .ok _ env => env
  | .error _ env => env

theorem run_eq_ok {m : Evaluation α} {env env₁ : Environment} {a : α} :
    m env = .ok a env₁ ↔ m.outcome env = .ok a ∧ m.after env = env₁ := by
  unfold outcome after
  cases m env <;> simp

theorem run_eq_error {m : Evaluation α} {env env₁ : Environment} {e : EvalError} :
    m env = .error e env₁ ↔ m.outcome env = .error e ∧ m.after env = env₁ := by
  unfold outcome after
  cases m env <;> simp

theorem bind_of_ok {m : Evaluation α} {f : α → Evaluation β} {env env₁ : Environment} {a : α}
    (h : m env = .ok a env₁) : (m >>= f) env = f a env₁ := by
  show EStateM.bind m f env = f a env₁
  rw [EStateM.bind, h]

theorem bind_of_error {m : Evaluation α} {f : α → Evaluation β} {env env₁ : Environment}
    {e : EvalError} (h : m env = .error e env₁) : (m >>= f) env = .error e env₁ := by
  show EStateM.bind m f env = .error e env₁
  rw [EStateM.bind, h]

theorem bind_eq_ok {m : Evaluation α} {f : α → Evaluation β} {env env₂ : Environment} {b : β}
    (h : (m >>= f) env = .ok b env₂) : ∃ a env₁, m env = .ok a env₁ ∧ f a env₁ = .ok b env₂ := by
  cases hrun : m env with
  | ok a env₁ =>
    rw [bind_of_ok hrun] at h
    exact ⟨a, env₁, rfl, h⟩
  | error e env₁ =>
    rw [bind_of_error hrun] at h
    cases h

theorem lift_eq_ok {result : Except ArithmeticError α} {env env₁ : Environment} {a : α}
    (h : lift result env = .ok a env₁) : result = .ok a ∧ env₁ = env := by
  cases result <;> cases h
  exact ⟨rfl, rfl⟩

theorem outcome_lift (result : Except ArithmeticError α) (env : Environment) :
    (lift result).outcome env = result.mapError .arithmetic := by
  cases result <;> rfl

theorem after_bind_of_ok {m : Evaluation α} {f : α → Evaluation β} {env env₁ : Environment} {a : α}
    (h : m env = .ok a env₁) : (m >>= f).after env = (f a).after env₁ := by
  unfold after
  rw [bind_of_ok h]

theorem after_bind_of_error {m : Evaluation α} {f : α → Evaluation β} {env env₁ : Environment}
    {e : EvalError} (h : m env = .error e env₁) : (m >>= f).after env = env₁ := by
  unfold after
  rw [bind_of_error h]

theorem outcome_bind_of_ok {m : Evaluation α} {f : α → Evaluation β} {env env₁ : Environment}
    {a : α} (h : m env = .ok a env₁) : (m >>= f).outcome env = (f a).outcome env₁ := by
  unfold outcome
  rw [bind_of_ok h]

theorem outcome_bind_of_error {m : Evaluation α} {f : α → Evaluation β} {env env₁ : Environment}
    {e : EvalError} (h : m env = .error e env₁) : (m >>= f).outcome env = .error e := by
  unfold outcome
  rw [bind_of_error h]

@[simp] theorem after_throw (e : EvalError) (env : Environment) :
    (throw e : Evaluation α).after env = env := rfl

@[simp] theorem after_assign (name : String) (value : Decimal) (env : Environment) :
    (assign name value).after env =
      { env with bindings := env.bindings.insert name (.num value) } := rfl

theorem run_draw (env : Environment) :
    draw env = .ok env.random.draw { env with random := env.random.next } := by
  unfold draw
  rfl

@[simp] theorem after_draw (env : Environment) :
    draw.after env = { env with random := env.random.next } := by
  rw [after, run_draw]

theorem after_withLocal (name : String) (body : Evaluation α) (env : Environment) :
    ((withLocal name body).after env).bindings =
      (body.after { env with bindings := env.bindings.erase name }).bindings.restore name
        (env.bindings.get? name) := by
  unfold after withLocal
  cases body { env with bindings := env.bindings.erase name } <;> rfl

theorem outcome_withLocal (name : String) (body : Evaluation α) (env : Environment) :
    (withLocal name body).outcome env =
      body.outcome { env with bindings := env.bindings.erase name } := by
  unfold outcome withLocal
  cases body { env with bindings := env.bindings.erase name } <;> rfl

theorem withLocal_eq_ok {name : String} {body : Evaluation α} {env env₁ : Environment} {a : α}
    (h : withLocal name body env = .ok a env₁) :
    ∃ env₂, body { env with bindings := env.bindings.erase name } = .ok a env₂ ∧
      env₁.bindings = env₂.bindings.restore name (env.bindings.get? name) := by
  obtain ⟨houtcome, rfl⟩ := run_eq_ok.mp h
  rw [outcome_withLocal] at houtcome
  exact ⟨_, run_eq_ok.mpr ⟨houtcome, rfl⟩, after_withLocal name body env⟩

end Evaluation

/-- A computation with the events that it goes through. -/
structure Recorded (α : Type) where
  evaluation : Evaluation α
  events : Environment → List Event

namespace Recorded

variable {α β : Type}

instance : Monad Recorded where
  pure a := ⟨pure a, fun _ => []⟩
  bind m f := ⟨m.evaluation >>= fun a => (f a).evaluation, fun env =>
    m.events env ++ match m.evaluation env with
      | .ok a env => (f a).events env
      | .error _ _ => []⟩

/-- A computation that nothing is recorded of. -/
def silent (m : Evaluation α) : Recorded α := ⟨m, fun _ => []⟩

/-- Puts an event on record. -/
def note (event : Event) : Recorded Unit := ⟨pure (), fun _ => [event]⟩

/-- Binds a variable to a number. -/
def assign (name : String) (value : Decimal) : Recorded Unit := do
  silent (.assign name value)
  note (.assigned name value)

/-- Assigns a value to the variable that the target is. -/
def toTarget (value : Recorded Decimal) : Expr → Recorded Decimal
  | .var name => do
    let value ← value
    assign name value
    return value
  | target => silent (throw (.notAssignable target))

/-- Runs a computation with a variable of its own, whose assignments are not recorded. -/
def withLocal (name : String) (body : Recorded α) : Recorded α :=
  ⟨.withLocal name body.evaluation, fun env =>
    (body.events { env with bindings := env.bindings.erase name }).filter
      fun event => (event.value? name).isNone⟩

/-- The values of several computations, run one after the other. -/
def all : List (Recorded α) → Recorded (List α)
  | [] => pure []
  | first :: rest => do
    let value ← first
    let values ← all rest
    return value :: values

/-- A number of steps of a range from `i` on. -/
def repeatBody (combine : Decimal → Decimal → Except ArithmeticError Decimal)
    (body : Recorded Decimal) : Nat → Decimal → Decimal → Recorded Decimal
  | 0, _, result => pure result
  | count + 1, i, result => do
    assign loopVariable i
    let value ← body
    let result ← silent (.lift (combine result value))
    let i ← silent (.lift (i.add .one))
    repeatBody combine body count i result

/-- The values of the body over a range, combined from `start` on. -/
def overRange (start : Decimal) (combine : Decimal → Decimal → Except ArithmeticError Decimal)
    (lower upper body : Recorded Decimal) : Recorded Decimal := do
  let first ← lower
  let last ← upper
  let last ← silent (.lift last.trunc)
  withLocal loopVariable (repeatBody combine body (Evaluation.steps first last) first start)

end Recorded

/-- The call of a function under the given name. -/
def Builtin.recorded (f : Builtin) (name : String) (arguments : List (Recorded Decimal)) :
    Recorded Decimal :=
  match f.rule, arguments with
  | .range start combine, [lower, upper, body] => .overRange start combine lower upper body
  | _, arguments =>
    if f.arity.accepts arguments.length then do
      let values ← .all arguments
      .silent (f.perform name (values.map pure))
    else .silent (throw (.argumentCount name f.arity arguments.length))

namespace Expr

mutual

/-- The evaluation of an expression with its record. -/
def recorded : Expr → Recorded Decimal
  | num value => pure value
  | var name => .silent (eval (var name))
  | unary op operand => do .silent (.lift (op.eval (← operand.recorded)))
  | binary op left right => do
    let a ← left.recorded
    let b ← right.recorded
    .note (.applied op a b)
    .silent (.lift (op.eval a b))
  | assign target value => .toTarget value.recorded target
  | call name f arguments => f.recorded name (recordedAll arguments)

/-- The evaluations of several expressions with their records. -/
def recordedAll : List Expr → List (Recorded Decimal)
  | [] => []
  | e :: rest => e.recorded :: recordedAll rest

end

/-- What the evaluation of an expression does. -/
def events (e : Expr) (env : Environment) : List Event := e.recorded.events env

end Expr

namespace Recorded

variable {α β : Type}

theorem events_bind_of_ok {m : Recorded α} {f : α → Recorded β} {env env₁ : Environment} {a : α}
    (h : m.evaluation env = .ok a env₁) :
    (m >>= f).events env = m.events env ++ (f a).events env₁ := by
  show _ ++ _ = _
  rw [h]

theorem events_bind_of_error {m : Recorded α} {f : α → Recorded β} {env env₁ : Environment}
    {e : EvalError} (h : m.evaluation env = .error e env₁) :
    (m >>= f).events env = m.events env := by
  show _ ++ _ = _
  rw [h, List.append_nil]

@[simp] theorem events_note (event : Event) (env : Environment) :
    (note event).events env = [event] := rfl

@[simp] theorem events_assign (name : String) (value : Decimal) (env : Environment) :
    (assign name value).events env = [.assigned name value] := rfl

@[simp] theorem events_withLocal (name : String) (body : Recorded α) (env : Environment) :
    (withLocal name body).events env =
      (body.events { env with bindings := env.bindings.erase name }).filter
        fun event => (event.value? name).isNone := rfl

end Recorded

end Reckon
