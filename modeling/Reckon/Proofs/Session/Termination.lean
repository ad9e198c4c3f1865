import Reckon.Proofs.Evaluation.BigStep
import Reckon.Proofs.Expr.Reader
import Reckon.Proofs.Session.Effect
import Reckon.Proofs.Token.Scan

/-!
# Reading and evaluating end

Neither reading a text nor evaluating a tree goes on for ever. Reading cuts the text into tokens,
each at least a character long, and the descent from each level takes tokens off what is left. An
evaluation walks through its tree; what a variable is bound to adds nothing to the walk, because it
is a number, and a range makes no more turns than its bounds allow.

Both are said of runs without bounds, `Cut`, `Reads` and `Evaluates`, which the reader and the
evaluation are then shown to carry out. So no bound on the depth of either is ever met.

Results:
* `readingEnds`: every text is read to an end.
* `evaluationEnds`: every tree is evaluated to an end, where all variables are bound to numbers.
* `terminates`: both for sessions, with the number of turns that ranges make.
-/

namespace Reckon

namespace Expr

/-- A text is read to an end. -/
structure ReadingEnds (text : String) : Prop where
  /-- The text is cut into tokens to its end or to the first place that is none. -/
  scanned : Cut 0 text.toList (scan text.toList)
  /-- The descent ends from every level, wherever among the tokens it begins: it uses up some of
  them, at least one if it finds a tree. The reader does the same, if only the depth suffices that
  it may recurse to. -/
  read : ∀ level tokens, tokens <:+ (scan text.toList).tokens →
    ∃ used rest outcome, tokens = used ++ rest ∧ Reads level used rest.head? outcome ∧
      (∀ e, outcome = .ok e → used ≠ []) ∧
      ∀ depth, Suffices level tokens depth → readLevel depth level tokens = leaving rest outcome
  /-- The depth that the reader sets itself suffices. -/
  deep : Suffices .assignment (scan text.toList).tokens
    (stepsPerToken * ((scan text.toList).tokens.length + 1))

theorem readingEnds (text : String) : ReadingEnds text where
  scanned := Scan.cut_go 0 text.toList
  read level tokens _ := by
    obtain ⟨used, rest, outcome, rfl, hread⟩ := readable level tokens
    refine ⟨used, rest, outcome, rfl, hread, ?_, ?_⟩
    · intro e he
      exact List.ne_nil_of_length_pos (hread.derives he).length_pos
    · intro depth hd
      refine hread.readLevel rfl ?_
      simp only [Suffices, List.length_append, stepsPerToken] at hd ⊢
      omega
  deep := suffices_depth .assignment (List.prefix_refl _)

/-- A tree is evaluated to an end, and to one only. -/
structure EvaluationEnds (e : Expr) (env : Environment) : Prop where
  run : Evaluates e env (e.eval env)
  only : ∀ r, Evaluates e env r → r = e.eval env

theorem evaluationEnds (e : Expr) {env : Environment} (henv : env.bindings.Literal) :
    EvaluationEnds e env where
  run := evaluates_eval e env henv
  only _ h := (h.eval_eq henv).symm

end Expr

namespace Session

/-- **Reading and evaluating end.** Every text is read to an end. In every session, and wherever all
variables are bound to numbers, every tree is evaluated to an end. A range makes at most as many
turns as there are numbers from its lower bound up to its truncated upper bound, whatever its body
does. -/
theorem terminates :
    (∀ text : String, Expr.ReadingEnds text) ∧
    (∀ s : Session, s.Reachable → ∀ e, Expr.EvaluationEnds e s.environment) ∧
    (∀ env : Environment, env.bindings.Literal → ∀ e, Expr.EvaluationEnds e env) ∧
    ∀ combine body turns first start env r, ∀ bound last : Decimal, bound.trunc = .ok last →
      Repeats combine body last turns first start env r →
        (turns : ℤ) ≤ max 0 (⌊last.value - first.value⌋ + 1) := by
  refine ⟨Expr.readingEnds, fun s hs e => Expr.evaluationEnds e hs.literal, ?_, ?_⟩
  · exact fun env henv e => Expr.evaluationEnds e henv
  · exact fun _ _ _ _ _ _ _ _ _ _ h => h.count_le

theorem terminates_nested :
    let body : Expr :=
      .assign (.var "i") (.call "sum" .sum [.num (.ofInt 1), .var "i", .var "i"])
    let e : Expr := .call "sum" .sum [.num (.ofInt 1), .num (.ofInt 3), body]
    let env := (new default).environment
    Expr.ReadingEnds "sum(1, 3, i = sum(1, i, i))" ∧ (new default).Reachable ∧
      e.eval.outcome env = .ok (.ofInt 10) ∧ Evaluates e env (e.eval env) ∧
      ∃ turns r, Repeats Decimal.add body (.ofInt 3) turns (.ofInt 1) .zero env r ∧
        turns ≤ 3 := by
  intro body e env
  obtain ⟨hread, hsession, hliteral, hturns⟩ := terminates
  have hvalue : e.eval.outcome env = .ok (.ofInt 10) := by rfl
  have henv : env.bindings.Literal := Bindings.literal_empty
  have htrunc : (Decimal.ofInt 3).trunc = .ok (.ofInt 3) := rfl
  obtain ⟨turns, hrepeats⟩ := repeats_repeatBody Decimal.add (trunc_scale htrunc)
    (fun env henv => (hliteral env henv body).run) (.ofInt 1) .zero env henv
  have hbound := hturns _ _ _ _ _ _ _ _ _ htrunc hrepeats
  rw [Decimal.value_ofInt, Decimal.value_ofInt] at hbound
  norm_num at hbound
  exact ⟨hread _, .new default, hvalue, (hsession _ (.new default) e).run, turns, _, hrepeats, hbound⟩

end Session

end Reckon
