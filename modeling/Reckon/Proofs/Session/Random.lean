import Reckon.Proofs.Evaluation.FreeVariables
import Reckon.Proofs.Session.Effect

/-!
# Sessions with different random numbers

Two runs of the program draw different random numbers. As long as no text calls `rand`, sessions
that differ in their source of random numbers give the same answers: every evaluation gives the
same text or failure and leaves all variables bound alike.

Results:
* `Alike.evaluate`: sessions that bind all variables alike go on doing so.
-/

namespace Reckon.Session

/-- The text calls no `rand`, should it be an expression at all. -/
def Deterministic (text : String) : Prop :=
  ∀ e, Expr.parse text = .ok e → .random ∉ e.functions

instance (text : String) : Decidable (Deterministic text) :=
  match h : Expr.parse text with
  | .ok e => decidable_of_iff (.random ∉ e.functions)
      ⟨fun hrandom _ he => Except.ok.inj (h.symm.trans he) ▸ hrandom, fun hall => hall e h⟩
  | .error _ => isTrue fun _ he => nomatch h.symm.trans he

/-- Both sessions bind the same variables to the same numbers, whatever random numbers they are
going to draw. -/
structure Alike (s s' : Session) : Prop where
  literal : s.environment.bindings.Literal
  literal' : s'.environment.bindings.Literal
  get?_eq : ∀ name, s.environment.bindings.get? name = s'.environment.bindings.get? name

theorem Alike.new (random random' : RandomSource) : Alike (new random) (new random') :=
  ⟨Bindings.literal_empty, Bindings.literal_empty, fun _ => rfl⟩

/-- **The random numbers play no part** in the evaluation of a text without `rand`. -/
theorem Alike.evaluate {s s' : Session} (h : Alike s s') {text : String}
    (htext : Deterministic text) :
    (s.evaluate text).1 = (s'.evaluate text).1 ∧
      Alike (s.evaluate text).2 (s'.evaluate text).2 := by
  cases hparse : Expr.parse text with
  | error error =>
    rw [evaluate_of_unreadable hparse, evaluate_of_unreadable hparse]
    exact ⟨rfl, h⟩
  | ok e =>
    -- all variables are bound alike, so those that the tree reads are
    obtain ⟨houtcome, -, hafter⟩ := e.eval_agree (htext e hparse) h.literal h.literal'
      fun name _ => h.get?_eq name
    have hafter name := hafter name (.inl (h.get?_eq name))
    have hlit := e.literal_after h.literal
    have hlit' := e.literal_after h.literal'
    cases hrun : e.eval.outcome s.environment with
    | error error =>
      rw [evaluate_of_error hparse (Evaluation.run_eq_error.mpr ⟨hrun, rfl⟩),
        evaluate_of_error hparse (Evaluation.run_eq_error.mpr ⟨houtcome.symm.trans hrun, rfl⟩)]
      exact ⟨rfl, hlit, hlit', hafter⟩
    | ok value =>
      rw [evaluate_of_ok hparse (Evaluation.run_eq_ok.mpr ⟨hrun, rfl⟩),
        evaluate_of_ok hparse (Evaluation.run_eq_ok.mpr ⟨houtcome.symm.trans hrun, rfl⟩)]
      refine ⟨rfl, hlit.insert _ value, hlit'.insert _ value, fun name => ?_⟩
      simp [hafter name]

end Reckon.Session
