import Reckon.Proofs.Evaluation.BigStep
import Reckon.Proofs.Guarded.Evaluation
import Reckon.Proofs.Guarded.Scan
import Reckon.Proofs.Session.Effect

/-!
# No evaluation leaves the domain of an operation

`Guarded.evaluate` evaluates a text in a session with every partial operation guarded: the
arguments that functions read by their positions, the cuts of texts at byte offsets, the
subtractions of lengths, the divisions, the scales that zeros are appended for. It gives what the
session gives, so it never runs into a fault.

What the session gives is the text of a value or a failure that is one of the text's own. The error
of a variable that depends on itself is none: it stands for an evaluation without an end, and there
the evaluation of every tree ends.

Results:
* `Evaluates.grounded`: an evaluation that ends follows no variable without an end.
* `evaluate_eq`: evaluating with guards does what evaluating without them does.
* `evaluate_safe`: both for the sessions that texts lead to.
-/

namespace Reckon

/-! ## Ends of evaluations -/

namespace Evaluation

variable {α β : Type}

/-- No variable is to blame that depends on itself. -/
def Grounded (r : Ending α) : Prop := ∀ name env, r ≠ .error (.endlessVariable name) env

theorem grounded_ok (a : α) (env : Environment) : Grounded (.ok a env : Ending α) := nofun

/-- The same error is to blame, whatever value there would have been. -/
theorem Grounded.error {e : EvalError} {env : Environment}
    (h : Grounded (.error e env : Ending α)) : Grounded (.error e env : Ending β) := by
  rintro name env ⟨⟩
  exact h name env rfl

theorem grounded_lift (result : Except ArithmeticError α) (env : Environment) :
    Grounded (lift result env) := by
  cases result <;> exact nofun

theorem Grounded.andThen {r : Ending α} {f : α → Evaluation β} (h : Grounded r)
    (hf : ∀ a env, Grounded (f a env)) : Grounded (andThen r f) := by
  cases r with
  | ok a env => exact hf a env
  | error e env => exact h.error

theorem Grounded.restoring {r : Ending α} (h : Grounded r) (name : String) (saved : Option Expr) :
    Grounded (restoring name saved r) := by
  cases r with
  | ok a env => exact grounded_ok a _
  | error e env =>
    rintro other env ⟨⟩
    exact h other _ rfl

/-- A function of values is not to blame either. -/
theorem grounded_perform {f : Builtin} (hrule : ∀ start combine, f.rule ≠ .range start combine)
    (name : String) (values : List Decimal) (env : Environment) :
    Grounded (f.perform name (values.map pure) env) := by
  obtain ⟨result, -, h⟩ | ⟨rfl, rfl⟩ | h := f.perform_pure_cases name values hrule
  · rw [h]
    exact grounded_lift result env
  · have hrandom : Builtin.random.perform name [] =
        draw >>= fun x => lift (Decimal.ofResult "rand" x) := rfl
    rw [List.map_nil, hrandom, bind_eq_andThen, run_draw]
    exact (grounded_ok _ _).andThen fun x => grounded_lift _
  · rw [h]
    exact nofun

end Evaluation

open Evaluation

mutual

/-- **An evaluation that ends** follows no variable without an end. -/
theorem Evaluates.grounded {e : Expr} {env : Environment} {r : Ending Decimal} :
    Evaluates e env r → Grounded r
  | .num => grounded_ok _ _
  | .unbound _ => nofun
  | .var _ h => h.grounded
  | .unary h => h.grounded.andThen fun _ => grounded_lift _
  | .binaryFails h => h.grounded
  | .binary _ hr => hr.grounded.andThen fun _ => grounded_lift _
  | .assign h => h.grounded.andThen fun _ _ => grounded_ok _ _
  | .notAssignable _ => nofun
  | .argumentCount _ => nofun
  | .call hrule _ h => h.grounded.andThen fun values => grounded_perform hrule _ values
  | .lowerFails _ hl => hl.grounded
  | .upperFails _ _ hu => hu.grounded
  | .truncFails _ _ _ _ => nofun
  | .range _ _ _ _ hr => hr.grounded.restoring _ _

theorem EvaluatesAll.grounded {arguments : List Expr} {env : Environment}
    {r : Ending (List Decimal)} : EvaluatesAll arguments env r → Grounded r
  | .nil => grounded_ok _ _
  | .fails h => h.grounded.error
  | .cons _ hr => hr.grounded.andThen fun _ _ => grounded_ok _ _

theorem Repeats.grounded {combine : Decimal → Decimal → Except ArithmeticError Decimal}
    {body : Expr} {last : Decimal} {count : Nat} {i result : Decimal} {env : Environment}
    {r : Ending Decimal} : Repeats combine body last count i result env r → Grounded r
  | .done _ => grounded_ok _ _
  | .bodyFails _ hb => hb.grounded
  | .advanceFails _ _ _ => nofun
  | .turn _ _ _ hr => hr.grounded

end

/-! ## Guarded sessions -/

namespace Guarded

/-- Evaluates a tree; its value becomes the last one. -/
def evalTree (e : Expr) : Guarded Evaluation Decimal := do
  let value ← eval e
  Evaluation.assign lastValue value
  return value

/-- Evaluates a text and gives the text of its value, or what the failure says. -/
def evaluate (s : Session) (text : String) : Except Fault (Except String String × Session) := do
  match ← parse text with
  | .error e => return (.error e.message, s)
  | .ok e =>
    match s.run (evalTree e).run with
    | (.ok (.ok value), s) => return (.ok (← render value), s)
    | (.ok (.error fault), _) => throw fault
    | (.error e, s) => return (.error (← message e), s)

theorem evalTree_eq (e : Expr) : evalTree e = liftM (Session.evalTree e) := by
  rw [evalTree, Session.evalTree, eval_eq]
  exact bind_liftM _ fun value => bind_liftM _ fun _ => rfl

theorem run_eq {α : Type} (s : Session) (m : Evaluation α) :
    s.run (liftM m : Guarded Evaluation α).run = ((s.run m).1.map .ok, (s.run m).2) := by
  unfold Session.run
  rw [EStateM.run, EStateM.run, run_liftM]
  cases m s.environment <;> rfl

/-- **Evaluating with guards** does what evaluating without them does. -/
theorem evaluate_eq (s : Session) (text : String) : evaluate s text =
    .ok ((s.evaluate text).1.mapError Failure.message, (s.evaluate text).2) := by
  rw [evaluate, parse_eq, ok_bind, Session.evaluate]
  cases Expr.parse text with
  | error e => rfl
  | ok e =>
    simp only [evalTree_eq, run_eq]
    obtain ⟨outcome, s'⟩ := s.run (Session.evalTree e)
    cases outcome with
    | ok value =>
      simp only [Except.map, render_eq]
      rfl
    | error e =>
      simp only [Except.map, message_eq]
      rfl

end Guarded

namespace Session

variable {s : Session}

/-- In a session no variable depends on itself. -/
theorem evaluate_ne_endless (hs : s.Reachable) (text name : String) :
    (s.evaluate text).1 ≠ .error (.unevaluable (.endlessVariable name)) := by
  cases h : Expr.parse text with
  | error e =>
    rw [evaluate_of_unreadable h]
    exact nofun
  | ok e =>
    have hends := evaluates_eval e s.environment hs.literal
    cases hrun : e.eval s.environment with
    | ok value env =>
      rw [evaluate_of_ok h hrun]
      exact nofun
    | error error env =>
      rw [hrun] at hends
      rw [evaluate_of_error h hrun]
      rintro ⟨⟩
      exact hends.grounded name env rfl

/-- **No evaluation leaves the domain of an operation.** In every session that texts lead to, every
text is evaluated without a fault: with every partial operation guarded, the evaluation gives the
text of a value or what a failure says, and the session after it, as it does unguarded. The failure
is never that a variable depends on itself. -/
theorem evaluate_safe (hs : s.Reachable) (text : String) :
    Guarded.evaluate s text =
      .ok ((s.evaluate text).1.mapError Failure.message, (s.evaluate text).2) ∧
    ∀ name, (s.evaluate text).1 ≠ .error (.unevaluable (.endlessVariable name)) :=
  ⟨Guarded.evaluate_eq s text, evaluate_ne_endless hs text⟩

/-- A radix literal, a quotient and a number with a point have their cuts and their divisor. -/
theorem evaluate_safe_quotient : (new default).Reachable ∧
    ((new default).evaluate "0xFF / 8").1 = .ok "31.875" ∧
    (Guarded.evaluate (new default) "0xFF / 8").map Prod.fst = .ok (.ok "31.875") := by
  have hscan : scan "0xFF / 8".toList = ⟨[.number (.ofInt 255), .symbol .slash,
      .number (.ofInt 8)], none⟩ := by decide +kernel
  have hparse : Expr.parse "0xFF / 8" =
      .ok (.binary .div (.num (.ofInt 255)) (.num (.ofInt 8))) := Expr.parse_of_scan hscan rfl
  have hdiv : BinaryOp.div.eval (.ofInt 255) (.ofInt 8) =
      .ok ⟨31875, ⟨3, by decide, by decide⟩⟩ := by decide +kernel
  have hrun : (Expr.binary .div (.num (.ofInt 255)) (.num (.ofInt 8))).eval (new default).environment =
      Evaluation.lift (BinaryOp.div.eval (.ofInt 255) (.ofInt 8)) (new default).environment := by
    rw [Expr.eval_binary, Expr.eval_num, Expr.eval_num, pure_bind, pure_bind]
  rw [hdiv] at hrun
  have hrender : (⟨31875, ⟨3, by decide, by decide⟩⟩ : Decimal).render = "31.875" := by
    decide +kernel
  have hvalue : ((new default).evaluate "0xFF / 8").1 = .ok "31.875" := by
    rw [evaluate_of_ok hparse hrun, hrender]
  refine ⟨.new default, hvalue, ?_⟩
  rw [(evaluate_safe (.new default) "0xFF / 8").1, Except.map, hvalue]
  rfl

end Session

end Reckon
