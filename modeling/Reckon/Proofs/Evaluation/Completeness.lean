import Reckon.Proofs.Decimal.Reach
import Reckon.Proofs.Evaluation.Sweep

/-!
# When the turns of a range are enough

A range forms the number of the next turn at the end of every turn, also of the last one, whose
number no turn has. So it takes more than turns that succeed for a range to have a value: if it has
a turn at all, one has to be added to its lower bound. Where that fails the range fails after its
first turn, even if there is no other. Where it does not fail it never does: the numbers behind the
lower bound all have one scale, and one can be brought to that scale.

Results:
* `repeatBody_of_turns`: turns that succeed are steps that succeed.
* `repeatBody_of_apart`: a range ends with its first turn if that has no next number.
* `evalTo_of_sweep`: what a call of `sum` or `product` ends with where all its turns succeed.
* `sweep_unfollowed`: a range with a single turn that succeeds, and fails all the same.
-/

namespace Reckon

namespace Decimal

variable {a b i next d : Decimal} {k : ℕ}

theorem align_error {error : ArithmeticError} (h : align a b = .error error) :
    error = .scaleOverflow := by
  rw [align_eq] at h
  obtain h | ⟨a', -, h⟩ := bind_error h
  · exact rescale_error h
  · obtain h | ⟨b', -, h⟩ := bind_error h
    · exact rescale_error h
    · cases h

theorem add_of_apart (h : a.Apart b) : a.add b = .error .scaleOverflow := by
  obtain ⟨error, herror⟩ := add_error_iff.mpr h
  obtain h | ⟨p, -, h⟩ := bind_error herror
  · rw [herror, align_error h]
  · cases h

theorem exists_add_of_not_apart (h : ¬ a.Apart b) : ∃ sum, a.add b = .ok sum := by
  cases hsum : a.add b with
  | ok sum => exact ⟨sum, rfl⟩
  | error error => exact absurd (add_error_iff.mp ⟨error, hsum⟩) h

/-- Where a number has a next one, that one has a next one too. -/
theorem not_apart_of_next (hnext : i.add .one = .ok next) : ¬ next.Apart .one := by
  have hscale : next.scale = Scale.max i.scale one.scale := (value_add hnext).2
  have hmax : Scale.max next.scale one.scale = next.scale := by rw [hscale, Scale.max_max]
  have hi : ¬ i.Apart .one := fun h => by
    obtain ⟨error, herror⟩ := add_error_iff.mpr h
    rw [hnext] at herror
    cases herror
  rw [Apart, hmax]
  rintro (h | h)
  · exact not_outOfReach_of_le le_rfl h
  · exact hi (.inr (hscale ▸ h))

/-- Counted from the next number, a turn comes one earlier. -/
theorem IsNumber.to_next (hnext : i.add .one = .ok next) (h : IsNumber i (k + 1) d) :
    IsNumber next k d := by
  obtain ⟨hvalue, hscale⟩ := value_add hnext
  have hd : d.value = next.value + k := by
    rw [h.value, hvalue, value_one]
    push_cast
    ring
  have hdscale : d.scale = next.scale := (h.scale (Nat.succ_ne_zero k)).trans hscale.symm
  refine ⟨hd, fun hk => eq_of_value ?_ hdscale, fun _ => ?_⟩
  · rw [hd, hk, Nat.cast_zero, add_zero]
  · rw [hdscale, hscale]
    exact (Scale.max_max i.scale .zero).symm

end Decimal

namespace Evaluation

variable {combine : Decimal → Decimal → Except ArithmeticError Decimal}
  {lower upper body : Evaluation Decimal} {env env' env₁ : Environment} {turns : List Turn}
  {start i next sum value result last : Decimal} {error : ArithmeticError}

/-! ## Steps -/

/-- A step goes on with the next number. -/
theorem repeatBody_turn (hbody : body (env.turn i) = .ok value env₁)
    (hsum : combine result value = .ok sum) (hnext : i.add .one = .ok next) (count : ℕ) :
    repeatBody combine body (count + 1) i result env =
      repeatBody combine body count next sum env₁ := by
  have hadvance : advance combine i result value = .ok (next, sum) := by
    rw [advance, hsum, hnext]
    rfl
  rw [repeatBody_succ, hbody, andThen, hadvance]
  rfl

/-- A step whose values cannot be combined, or whose number has no next one, is the last. -/
theorem repeatBody_of_advance_error (hbody : body (env.turn i) = .ok value env₁)
    (hadvance : advance combine i result value = .error error) (count : ℕ) :
    repeatBody combine body (count + 1) i result env = .error (.arithmetic error) env₁ := by
  rw [repeatBody_succ, hbody, andThen, hadvance]
  rfl

/-- A step without a next number is the last one, however many are left. -/
theorem repeatBody_of_apart (hbody : body (env.turn i) = .ok value env₁)
    (hsum : combine result value = .ok sum) (hi : i.Apart .one) (count : ℕ) :
    repeatBody combine body (count + 1) i result env =
      .error (.arithmetic .scaleOverflow) env₁ := by
  refine repeatBody_of_advance_error hbody ?_ count
  rw [advance, hsum, Decimal.add_of_apart hi]
  rfl

/-- **Turns that succeed are steps that succeed**, if the first number has a next one. -/
theorem repeatBody_of_turns (hturns : Turns body turns env env')
    (hnumber : ∀ (k : ℕ) (hk : k < turns.length), Decimal.IsNumber i k turns[k].number)
    (hfold : (turns.map Turn.value).foldlM combine sum = .ok result)
    (hi : turns = [] ∨ ¬ i.Apart .one) :
    repeatBody combine body turns.length i sum env = .ok result env' := by
  -- on the turns that are left, for the number and the combined value that they begin with
  induction hturns generalizing i sum with
  | none =>
    cases hfold
    rfl
  | @turn t rest env env₁ env₂ hbody _ ih =>
    obtain ⟨next, hnext⟩ := Decimal.exists_add_of_not_apart (hi.resolve_left (List.cons_ne_nil _ _))
    obtain rfl : t.number = i := (hnumber 0 (Nat.zero_lt_succ _)).head rfl
    rw [List.map_cons, List.foldlM_cons] at hfold
    obtain ⟨sum', hsum, hfold⟩ := bind_ok hfold
    rw [List.length_cons, repeatBody_turn hbody hsum hnext]
    refine ih (fun k hk => ?_) hfold (.inr (Decimal.not_apart_of_next hnext))
    exact (hnumber (k + 1) (Nat.succ_lt_succ hk)).to_next hnext

/-! ## Sweeps -/

/-- There are as many numbers `q`, `q + 1`, … up to the bound as it takes to come beyond it. -/
theorem lt_iff_add_le {q bound : ℚ} {n : ℕ} (hlt : bound < q + n) (hle : q + n ≤ bound + 1)
    (k : ℕ) : k < n ↔ q + k ≤ bound := by
  constructor
  · intro hk
    have : (k : ℚ) + 1 ≤ n := by exact_mod_cast hk
    linarith
  · intro hk
    by_contra hnot
    have : (n : ℚ) ≤ k := by exact_mod_cast not_lt.mp hnot
    linarith

/-- A sweep from a number that has a next one takes as many steps as it has turns. -/
theorem Sweep.steps_eq (s : Sweep start combine lower upper body env result env')
    (ht : s.bound.trunc = .ok last) (hi : s.turns = [] ∨ ¬ s.first.Apart .one) :
    steps s.first last = s.turns.length := by
  have hcountable : Countable s.first last := by
    rcases hi with hnil | hapart
    · have h := s.count 0
      rw [hnil, List.length_nil, Nat.cast_zero, add_zero, ← Decimal.value_trunc ht] at h
      exact .inr (not_le.mp fun hle => absurd (h.mpr hle) (Nat.lt_irrefl 0))
    · refine .inl ?_
      cases hceil : s.first.ceil with
      | ok least => exact ⟨least, rfl⟩
      | error error =>
        exact absurd (Decimal.add_error_iff.mp (Decimal.add_one_of_ceil_error hceil)) hapart
  refine eq_of_forall_lt_iff fun k => ?_
  rw [lt_steps_iff (trunc_scale ht) hcountable, s.count, Decimal.value_trunc ht]

theorem overRange_of_sweep (s : Sweep start combine lower upper body env result env')
    (ht : s.bound.trunc = .ok last) (hi : s.turns = [] ∨ ¬ s.first.Apart .one) :
    overRange start combine lower upper body env = .ok result env' := by
  rw [overRange_eq s.lower_eq s.upper_eq ht, s.steps_eq ht hi,
    repeatBody_of_turns s.turns_eq s.number s.fold hi]
  exact congrArg (EStateM.Result.ok result) s.restored.symm

theorem overRange_of_apart (s : Sweep start combine lower upper body env result env')
    (ht : s.bound.trunc = .ok last) (hturns : s.turns ≠ []) (hi : s.first.Apart .one) :
    (overRange start combine lower upper body).outcome env =
      .error (.arithmetic .scaleOverflow) := by
  have hle : s.first.leValue last = true := by
    have h := (s.count 0).mp (List.length_pos_iff.mpr hturns)
    rwa [Nat.cast_zero, add_zero, ← Decimal.value_trunc ht, ← Decimal.leValue_iff] at h
  obtain ⟨count, hsteps⟩ := exists_steps_succ (trunc_scale ht) hle
  obtain ⟨t, rest, hcons⟩ := List.exists_cons_of_ne_nil hturns
  have hrun := s.turns_eq
  have hfold := s.fold
  have hnumber := s.number
  simp only [hcons] at hrun hfold hnumber
  have hfirst : t.number = s.first := (hnumber 0 (Nat.zero_lt_succ _)).head rfl
  rw [List.map_cons, List.foldlM_cons] at hfold
  obtain ⟨sum, hsum, -⟩ := bind_ok hfold
  cases hrun with
  | turn hbody _ =>
    rw [hfirst] at hbody
    rw [outcome, overRange_eq s.lower_eq s.upper_eq ht, hsteps, repeatBody_of_apart hbody hsum hi]
    rfl

end Evaluation

namespace Expr

variable {f : Builtin} {start : Decimal}
  {combine : Decimal → Decimal → Except ArithmeticError Decimal}

/-- **What `sum` and `product` end with where all their turns succeed**, the bounds having been
evaluated and the fraction of the upper one dropped. They have the combined values as their value,
unless there is a turn and one cannot be added to the lower bound. -/
theorem evalTo_of_sweep (hf : f.OfRange start combine) (name : String) (lower upper body : Expr)
    (depth : ℕ) (env : Environment) {result last : Decimal} {env' : Environment}
    (s : Evaluation.Sweep start combine (lower.evalTo depth) (upper.evalTo depth)
      (body.evalTo depth) env result env') (ht : s.bound.trunc = .ok last) :
    (s.turns = [] ∨ ¬ s.first.Apart .one →
      (call name f [lower, upper, body]).evalTo depth env = .ok result env') ∧
    (s.turns ≠ [] → s.first.Apart .one →
      ((call name f [lower, upper, body]).evalTo depth).outcome env =
        .error (.arithmetic .scaleOverflow)) := by
  rw [evalTo_overRange hf.rule]
  exact ⟨Evaluation.overRange_of_sweep s ht, Evaluation.overRange_of_apart s ht⟩

/-- The turns for 0.5 and 1.5, after which one could be added again. -/
theorem evalTo_of_sweep_half :
    let half : Decimal := ⟨5, ⟨1, by decide, by decide⟩⟩
    let env : Environment := ⟨.empty, default⟩
    ∃ env' : Environment, ∃ s : Evaluation.Sweep .zero Decimal.add (Expr.num half).eval
        (Expr.num (.ofInt 2)).eval (Expr.var "i").eval env ⟨20, ⟨1, by decide, by decide⟩⟩ env',
      s.bound.trunc = .ok (.ofInt 2) ∧ s.turns.length = 2 ∧ ¬ s.first.Apart .one ∧
        (call "sum" .sum [.num half, .num (.ofInt 2), .var "i"]).eval env =
          .ok ⟨20, ⟨1, by decide, by decide⟩⟩ env' := by
  intro half env
  have hhalf : half.value = 1 / 2 := by norm_num [half, Decimal.value]
  have hbound : Decimal.truncated (Decimal.ofInt 2).value = 2 := by norm_num [Decimal.truncated]
  have hbody (env : Environment) (d : Decimal) :
      (Expr.var "i").eval (env.turn d) = .ok d (env.turn d) :=
    eval_var_of_num (by simp [Environment.turn, loopVariable])
  let s : Evaluation.Sweep .zero Decimal.add (Expr.num half).eval (Expr.num (.ofInt 2)).eval
      (Expr.var "i").eval env ⟨20, ⟨1, by decide, by decide⟩⟩ _ :=
    { first := half
      bound := .ofInt 2
      turns := [⟨half, half⟩, ⟨⟨15, ⟨1, by decide, by decide⟩⟩, ⟨15, ⟨1, by decide, by decide⟩⟩⟩]
      afterLower := env
      afterUpper := env
      afterTurns := _
      lower_eq := rfl
      upper_eq := rfl
      count := by
        rw [hhalf, hbound]
        exact Evaluation.lt_iff_add_le (by norm_num) (by norm_num)
      number := fun k hk => by
        obtain rfl | rfl : k = 0 ∨ k = 1 :=
          Nat.le_one_iff_eq_zero_or_eq_one.mp (Nat.le_of_lt_succ hk)
        · exact Decimal.isNumber_first half
        · exact ⟨by norm_num [half, Decimal.value], (absurd · Nat.one_ne_zero), fun _ => rfl⟩
      turns_eq := .turn (hbody _ _) (.turn (hbody _ _) .none)
      fold := rfl
      restored := rfl }
  have hnext : ¬ half.Apart .one := fun h => by cases Decimal.add_of_apart h
  have ht : s.bound.trunc = .ok (.ofInt 2) := Decimal.trunc_ofInt 2
  exact ⟨_, s, ht, rfl, hnext,
    (evalTo_of_sweep .sum "sum" _ _ _ followDepth env s ht).1 (.inr hnext)⟩

/-- The numbers of this range are its lower bound alone, the turn for it succeeds, and the range
fails all the same: it would take too many zeros to add one to its lower bound. -/
theorem sweep_unfollowed :
    let first : Decimal := ⟨1, ⟨4294967296, by decide, by decide⟩⟩
    let env : Environment := ⟨.empty, default⟩
    (∃ env' : Environment, ∃ s : Evaluation.Sweep .zero Decimal.add (Expr.num first).eval
        (Expr.num .one).eval (Expr.num (.ofInt 7)).eval env (.ofInt 7) env',
      s.bound.trunc = .ok .one ∧ s.turns.length = 1) ∧
    (call "sum" .sum [.num first, .num .one, .num (.ofInt 7)]).eval.outcome env =
      .error (.arithmetic .scaleOverflow) := by
  intro first env
  have hpos : 0 < first.value := Decimal.value_pos.mpr (by decide)
  have hle : first.value ≤ 1 := by
    rw [← Decimal.value_one, ← Decimal.leValue_iff]
    decide +kernel
  have hbound : Decimal.truncated Decimal.one.value = 1 := by norm_num [Decimal.truncated]
  let s : Evaluation.Sweep .zero Decimal.add (Expr.num first).eval (Expr.num .one).eval
      (Expr.num (.ofInt 7)).eval env (.ofInt 7) _ :=
    { first := first
      bound := .one
      turns := [⟨first, .ofInt 7⟩]
      afterLower := env
      afterUpper := env
      afterTurns := _
      lower_eq := rfl
      upper_eq := rfl
      count := by
        rw [hbound]
        exact Evaluation.lt_iff_add_le (by simpa using hpos) (by simpa using hle)
      number := fun k hk => by
        obtain rfl : k = 0 := Nat.lt_one_iff.mp hk
        exact Decimal.isNumber_first first
      turns_eq := .turn rfl .none
      fold := rfl
      restored := rfl }
  have ht : s.bound.trunc = .ok .one := Decimal.trunc_ofInt 1
  have hfar : first.Apart .one := .inr (.inl ⟨by decide, by decide⟩)
  refine ⟨⟨_, s, ht, rfl⟩, ?_⟩
  rw [eval_overRange rfl]
  exact Evaluation.overRange_of_apart s ht (List.cons_ne_nil _ _) hfar

end Expr

end Reckon
