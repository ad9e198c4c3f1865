import Reckon.Proofs.Evaluation.Frame
import Reckon.Proofs.Expr.Reader
import Reckon.Session

/-!
# What a text may change in a session

A session changes by the assignments that the evaluation of a text completes, and by the binding of
its value to `Ans`. A text that is no expression changes nothing.

Results:
* `Reachable.literal`: in a session all variables are bound to numbers.
* `evaluate_effect`: what each evaluation may change, whether it succeeds or fails.
-/

namespace Reckon.Session

/-- The sessions that the evaluation of texts leads to. -/
inductive Reachable : Session → Prop
  | new (random : RandomSource) : Reachable (new random)
  | evaluate {s : Session} (hs : Reachable s) (text : String) : Reachable (s.evaluate text).2

/-! ## The three ways an evaluation can end -/

variable {s : Session} {text : String} {e : Expr} {env : Environment}

theorem evaluate_of_unreadable {error : SyntaxError} (h : Expr.parse text = .error error) :
    s.evaluate text = (.error (.unreadable error), s) := by
  rw [evaluate, h]

theorem evaluate_of_ok {value : Decimal} (h : Expr.parse text = .ok e)
    (hrun : e.eval s.environment = .ok value env) :
    s.evaluate text =
      (.ok value.render,
        ⟨{ env with bindings := env.bindings.insert lastValue (.num value) }⟩) := by
  have htree : evalTree e s.environment =
      .ok value { env with bindings := env.bindings.insert lastValue (.num value) } := by
    rw [evalTree, Evaluation.bind_of_ok hrun]
    rfl
  simp only [evaluate, h, run, EStateM.run, htree]

theorem evaluate_of_error {error : EvalError} (h : Expr.parse text = .ok e)
    (hrun : e.eval s.environment = .error error env) :
    s.evaluate text = (.error (.unevaluable error), ⟨env⟩) := by
  have htree : evalTree e s.environment = .error error env := by
    rw [evalTree, Evaluation.bind_of_error hrun]
  simp only [evaluate, h, run, EStateM.run, htree]

/-- In a session all variables are bound to numbers. -/
theorem Reachable.literal (hs : s.Reachable) : s.environment.bindings.Literal := by
  induction hs with
  | new random => exact Bindings.literal_empty
  | @evaluate s hs text ih =>
    cases h : Expr.parse text with
    | error error => rwa [evaluate_of_unreadable h]
    | ok e =>
      have hafter := Expr.literal_after (e := e) ih
      cases hrun : e.eval s.environment with
      | error error env =>
        rw [evaluate_of_error h hrun, ← (Evaluation.run_eq_error.mp hrun).2]
        exact hafter
      | ok value env =>
        rw [evaluate_of_ok h hrun, ← (Evaluation.run_eq_ok.mp hrun).2]
        exact hafter.insert lastValue value

/-! ## The effect of an evaluation -/

/-- What the evaluation of a tree may change: it leads from one session to another and gives a text
or a failure. -/
structure Effect (e : Expr) (before : Session) (result : Except Failure String) (after : Session) :
    Prop where
  /-- A variable that is no target is bound as before, or still unbound. -/
  untouched : ∀ name, name ∉ e.targets → name ≠ lastValue →
    after.environment.bindings.get? name = before.environment.bindings.get? name
  /-- A target that is bound to something else holds the number that was assigned to it last. -/
  assigned : ∀ name, name ∈ e.targets → name ≠ lastValue →
    after.environment.bindings.get? name ≠ before.environment.bindings.get? name →
      ∃ value, lastAssigned? name (e.events before.environment) = some value ∧
        after.valueOf? name = some value
  /-- A text is that of the value, which `Ans` holds then. -/
  succeeded : ∀ text, result = .ok text → ∃ value,
    e.eval.outcome before.environment = .ok value ∧ after.valueOf? lastValue = some value ∧
      text = value.render
  /-- A failure changes `Ans` only if it is a target. -/
  failed : ∀ failure, result = .error failure →
    after.environment.bindings.get? lastValue ≠ before.environment.bindings.get? lastValue →
      lastValue ∈ e.targets

/-- A variable is bound as the evaluation of the tree leaves it; only `Ans` may be bound anew. -/
theorem effect_of_agree {after : Session} {result : Except Failure String}
    (hs : s.environment.bindings.Literal)
    (hafter : ∀ name, name ≠ lastValue → after.environment.bindings.get? name =
      (e.eval.after s.environment).bindings.get? name)
    (hsucceeded : ∀ text, result = .ok text → ∃ value,
      e.eval.outcome s.environment = .ok value ∧ after.valueOf? lastValue = some value ∧
        text = value.render)
    (hfailed : ∀ failure, result = .error failure →
      after.environment = e.eval.after s.environment) :
    Effect e s result after where
  untouched name htarget hname := by
    rw [hafter name hname, Expr.get?_after_of_not_mem hs htarget]
  assigned name _ hname hchanged := by
    rw [hafter name hname] at hchanged
    obtain ⟨value, hlast, hget⟩ := Expr.exists_of_get?_after_ne hs hchanged
    refine ⟨value, hlast, ?_⟩
    rw [valueOf?, Bindings.number?, hafter name hname, hget]
  succeeded := hsucceeded
  failed failure hresult hchanged := by
    rw [hfailed failure hresult] at hchanged
    by_contra htarget
    exact hchanged (Expr.get?_after_of_not_mem hs htarget)

/-- **Effect of an evaluation.** A text that is no expression changes nothing. An expression leaves
all variables alone but its targets and `Ans`, whether its evaluation succeeds or fails. -/
theorem evaluate_effect (hs : s.Reachable) (text : String) :
    (∀ error, Expr.parse text = .error error →
      s.evaluate text = (.error (.unreadable error), s)) ∧
    ∀ e, Expr.parse text = .ok e → Effect e s (s.evaluate text).1 (s.evaluate text).2 := by
  refine ⟨fun error => evaluate_of_unreadable, fun e h => ?_⟩
  cases hrun : e.eval s.environment with
  | error error env =>
    obtain ⟨-, hafter⟩ := Evaluation.run_eq_error.mp hrun
    rw [evaluate_of_error h hrun]
    refine effect_of_agree hs.literal (fun name _ => ?_) (fun text hresult => ?_) fun _ _ => ?_
    · rw [hafter]
    · cases hresult
    · exact hafter.symm
  | ok value env =>
    obtain ⟨houtcome, hafter⟩ := Evaluation.run_eq_ok.mp hrun
    rw [evaluate_of_ok h hrun]
    refine effect_of_agree hs.literal (fun name hname => ?_) (fun text hresult => ?_)
      fun failure hresult => ?_
    · simp [hafter, hname]
    · cases hresult
      exact ⟨value, houtcome, by simp [valueOf?, Bindings.number?], rfl⟩
    · cases hresult

theorem evaluate_effect_failure : (new default).Reachable ∧ ∃ e,
    Expr.parse "a = (b = 7) + x" = .ok e ∧ e.targets = ["a", "b"] ∧
    e.events (new default).environment = [.assigned "b" (.ofInt 7)] ∧
    Effect e (new default) ((new default).evaluate "a = (b = 7) + x").1
      ((new default).evaluate "a = (b = 7) + x").2 := by
  have hscan : scan "a = (b = 7) + x".toList = ⟨[.identifier "a", .symbol .equals,
      .symbol .leftParen, .identifier "b", .symbol .equals, .number (.ofInt 7),
      .symbol .rightParen, .symbol .plus, .identifier "x"], none⟩ := by decide +kernel
  have hparse : Expr.parse "a = (b = 7) + x" = .ok (.assign (.var "a")
      (.binary .add (.assign (.var "b") (.num (.ofInt 7))) (.var "x"))) :=
    Expr.parse_of_scan hscan rfl
  have hevents : Expr.events (.assign (.var "a")
      (.binary .add (.assign (.var "b") (.num (.ofInt 7))) (.var "x"))) (new default).environment =
        [.assigned "b" (.ofInt 7)] := by decide +kernel
  exact ⟨.new default, _, hparse, rfl, hevents, (evaluate_effect (.new default) _).2 _ hparse⟩

end Reckon.Session
