import Reckon.Proofs.Evaluation.BigStep

/-!
# The meaning of a range

A range that has a value swept over its numbers: it evaluated its body once for each of them, every
time in the environment that the time before left behind, and combined the values from left to right
(`Sweep`). How many turns there are and which number each of them has follows from the bounds alone.
So a body that assigns to the variable of the range changes neither; it only changes what the rest of
that turn reads. However a range ends, its variable is bound afterwards as it was when the bounds had
been evaluated.

Nothing is asked of the bindings. A variable may be bound to any tree, and the range may itself stand
in the tree of a variable, at any depth.

Results:
* `turns_of_repeatBody`: the turns that the steps of a range take.
* `sweep_of_evalTo`: what a call of `sum` or `product` does, and what becomes of its variable.
-/

namespace Reckon

namespace Decimal

variable {first next bound last d : Decimal} {k : ℕ}

/-- The number of turn `k` of a range, counted from zero: the lower bound as it is written, then the
numbers that adding one leads to, which are written out to the point at least. -/
structure IsNumber (first : Decimal) (k : ℕ) (d : Decimal) : Prop where
  value : d.value = first.value + k
  head : k = 0 → d = first
  scale : k ≠ 0 → d.scale = Scale.max first.scale .zero

theorem isNumber_first (d : Decimal) : IsNumber d 0 d where
  value := by rw [Nat.cast_zero, add_zero]
  head _ := rfl
  scale h := absurd rfl h

/-- Counted from the number before, a turn comes one later. -/
theorem IsNumber.of_next (hnext : first.add .one = .ok next) (h : IsNumber next k d) :
    IsNumber first (k + 1) d := by
  obtain ⟨hvalue, hscale⟩ := value_add hnext
  have hnextScale : next.scale = Scale.max first.scale .zero := hscale
  refine ⟨?_, fun h0 => absurd h0 (Nat.succ_ne_zero k), fun _ => ?_⟩
  · rw [h.value, hvalue, value_one]
    push_cast
    ring
  · by_cases hk : k = 0
    · rw [h.head hk, hnextScale]
    · rw [h.scale hk, hnextScale]
      ext
      simp only [Scale.toInt_max, Scale.toInt_zero]
      split_ifs <;> omega

theorem value_trunc (h : bound.trunc = .ok last) : last.value = truncated bound.value := by
  obtain ⟨hscale, hunscaled⟩ := roundToScale_ok h
  rw [value_of_scale_eq_zero hscale, hunscaled, RoundingMode.round_down, Scale.toInt_zero,
    zpow_zero, mul_one]

end Decimal

namespace Evaluation

/-! ## Turns -/

/-- A turn of a range: the number that its variable is bound to and the value of the body. -/
structure Turn where
  number : Decimal
  value : Decimal

/-- The body is evaluated once for each turn. A turn begins in the environment that the one before
it left behind, with the variable of ranges bound to its number. -/
inductive Turns (body : Evaluation Decimal) : List Turn → Environment → Environment → Prop
  | none {env : Environment} : Turns body [] env env
  | turn {t : Turn} {rest : List Turn} {env env₁ env₂ : Environment}
      (h : body (env.turn t.number) = .ok t.value env₁) (hrest : Turns body rest env₁ env₂) :
      Turns body (t :: rest) env env₂

variable {combine : Decimal → Decimal → Except ArithmeticError Decimal}
  {lower upper body : Evaluation Decimal} {env env' env₁ env₂ : Environment}
  {start first bound last i sum result : Decimal}

/-- **The steps of a range are its turns**, with the numbers from `i` on, whatever the body does. -/
theorem turns_of_repeatBody {count : ℕ}
    (h : repeatBody combine body count i sum env = .ok result env') :
    ∃ turns, turns.length = count ∧ Turns body turns env env' ∧
      (turns.map Turn.value).foldlM combine sum = .ok result ∧
      ∀ (k : ℕ) (hk : k < turns.length), Decimal.IsNumber i k turns[k].number := by
  -- on the steps that are left, for every number and every sum that they begin with
  induction count generalizing i sum env with
  | zero =>
    cases h
    exact ⟨[], rfl, .none, rfl, fun k hk => absurd hk (Nat.not_lt_zero k)⟩
  | succ count ih =>
    rw [repeatBody] at h
    obtain ⟨_, _, hassign, hbind⟩ := bind_eq_ok h
    cases hassign
    obtain ⟨value, env₁, hbody, hcombine⟩ := bind_eq_ok hbind
    obtain ⟨next, _, hlift, hadvance⟩ := bind_eq_ok hcombine
    obtain ⟨hnext, rfl⟩ := lift_eq_ok hlift
    obtain ⟨i', _, hlift', hmore⟩ := bind_eq_ok hadvance
    obtain ⟨hi', rfl⟩ := lift_eq_ok hlift'
    obtain ⟨rest, hlength, hturns, hfold, hnumber⟩ := ih hmore
    refine ⟨⟨i, value⟩ :: rest, by rw [List.length_cons, hlength], .turn hbody hturns, ?_, ?_⟩
    · rw [List.map_cons, List.foldlM_cons, hnext]
      exact hfold
    · intro k hk
      cases k with
      | zero => exact Decimal.isNumber_first i
      | succ k => exact (hnumber k (Nat.lt_of_succ_lt_succ hk)).of_next hi'

theorem lt_steps_iff (hlast : last.scale = .zero) (h : Countable first last) (k : ℕ) :
    k < steps first last ↔ first.value + k ≤ last.value := by
  have hle : first.value + k ≤ last.value ↔ ⌈first.value⌉ + (k : ℤ) ≤ last.unscaled := by
    rw [Decimal.value_of_scale_eq_zero hlast, ← Int.cast_natCast, ← Int.ceil_le,
      Int.ceil_add_intCast]
  rw [hle, steps_eq hlast h, Decimal.value_of_scale_eq_zero hlast, Int.floor_intCast]
  omega

/-! ## Sweeps -/

/-- What happens in a range that has a value, from its bounds on. -/
structure Sweep (start : Decimal) (combine : Decimal → Decimal → Except ArithmeticError Decimal)
    (lower upper body : Evaluation Decimal) (env : Environment) (result : Decimal)
    (env' : Environment) where
  first : Decimal
  bound : Decimal
  turns : List Turn
  afterLower : Environment
  afterUpper : Environment
  afterTurns : Environment
  /-- The lower bound is evaluated first, then the upper one. -/
  lower_eq : lower env = .ok first afterLower
  upper_eq : upper afterLower = .ok bound afterUpper
  /-- There are as many turns as numbers `first + k` up to the upper bound, its fraction dropped. -/
  count : ∀ k : ℕ, k < turns.length ↔ first.value + k ≤ Decimal.truncated bound.value
  /-- The turns have the numbers that begin with the lower bound, whatever the body assigns. -/
  number : ∀ (k : ℕ) (h : k < turns.length), Decimal.IsNumber first k turns[k].number
  turns_eq : Turns body turns
    { afterUpper with bindings := afterUpper.bindings.erase loopVariable } afterTurns
  /-- The result combines the values of the body from left to right. -/
  fold : (turns.map Turn.value).foldlM combine start = .ok result
  restored : env' = { afterTurns with
    bindings := afterTurns.bindings.restore loopVariable (afterUpper.bindings.get? loopVariable) }

theorem sweep_of_overRange
    (h : overRange start combine lower upper body env = .ok result env') :
    Nonempty (Sweep start combine lower upper body env result env') := by
  obtain ⟨first, env₁, hlower, hbind⟩ := bind_eq_ok h
  obtain ⟨bound, _, hupper, hlocal⟩ := bind_eq_ok hbind
  obtain ⟨last, env₂, hlift, hrange⟩ := bind_eq_ok hlocal
  obtain ⟨htrunc, rfl⟩ := lift_eq_ok hlift
  rw [withLocal_eq_restoring] at hrange
  cases hrun : repeatBody combine body (steps first last) first start
      { env₂ with bindings := env₂.bindings.erase loopVariable } with
  | error e env₃ =>
    rw [hrun] at hrange
    cases hrange
  | ok value env₃ =>
    rw [hrun] at hrange
    cases hrange
    obtain ⟨turns, hlength, hturns, hfold, hnumber⟩ := turns_of_repeatBody hrun
    have hcount (k : ℕ) : k < turns.length ↔ first.value + k ≤ Decimal.truncated bound.value := by
      rw [hlength, lt_steps_iff (trunc_scale htrunc) (countable_of_run hrun),
        Decimal.value_trunc htrunc]
    exact ⟨⟨first, bound, turns, env₁, env₂, env₃, hlower, hupper, hcount, hnumber, hturns, hfold,
      rfl⟩⟩

/-- Whether the body succeeds or fails, the variable of the range is bound to what it was bound to
when the bounds had been evaluated, or is as unbound as it was. -/
theorem get?_after_overRange (hlower : lower env = .ok first env₁)
    (hupper : upper env₁ = .ok bound env₂) :
    ((overRange start combine lower upper body).after env).bindings.get? loopVariable =
      env₂.bindings.get? loopVariable := by
  rw [overRange, after_bind_of_ok hlower, after_bind_of_ok hupper]
  cases bound.trunc with
  | error e => rfl
  | ok last =>
    have hlift : lift (.ok last) env₂ = .ok last env₂ := rfl
    rw [after_bind_of_ok hlift, after_withLocal, Bindings.get?_restore, if_pos rfl]

end Evaluation

/-! ## Calls -/

/-- The functions of ranges, with what they start from and what they combine values by. -/
inductive Builtin.OfRange :
    Builtin → Decimal → (Decimal → Decimal → Except ArithmeticError Decimal) → Prop
  | sum : OfRange sum .zero Decimal.add
  | product : OfRange product .one Decimal.mul

theorem Builtin.OfRange.rule {f : Builtin} {start : Decimal}
    {combine : Decimal → Decimal → Except ArithmeticError Decimal} (h : f.OfRange start combine) :
    f.rule = .range start combine := by
  cases h <;> rfl

namespace Expr

variable {f : Builtin} {start : Decimal}
  {combine : Decimal → Decimal → Except ArithmeticError Decimal}

/-- **The meaning of `sum` and `product`.** A call that has a value swept over its numbers, at every
depth to which trees of variables are followed. However a call ends after its bounds have been
evaluated, its variable is bound to the same tree as then, or is unbound as then. -/
theorem sweep_of_evalTo (hf : f.OfRange start combine) (name : String) (lower upper body : Expr)
    (depth : ℕ) (env : Environment) :
    (∀ result env', (call name f [lower, upper, body]).evalTo depth env = .ok result env' →
      Nonempty (Evaluation.Sweep start combine (lower.evalTo depth) (upper.evalTo depth)
        (body.evalTo depth) env result env')) ∧
    ∀ first bound env₁ env₂, lower.evalTo depth env = .ok first env₁ →
      upper.evalTo depth env₁ = .ok bound env₂ →
      (((call name f [lower, upper, body]).evalTo depth).after env).bindings.get? loopVariable =
        env₂.bindings.get? loopVariable := by
  rw [evalTo_overRange hf.rule]
  exact ⟨fun _ _ => Evaluation.sweep_of_overRange,
    fun _ _ _ _ => Evaluation.get?_after_overRange⟩

/-- The numbers are 0.5, 1.5 and 2.5, though the body binds their variable to something else, and
afterwards the variable is bound to a tree again. -/
theorem sweep_of_evalTo_assigned :
    let half : Decimal := ⟨5, ⟨1, by decide, by decide⟩⟩
    let bound : Decimal := ⟨37, ⟨1, by decide, by decide⟩⟩
    let body : Expr := .assign (.var "i") (.binary .mul (.var "i") (.num (.ofInt 2)))
    let tree : Expr := .binary .add (.var "x") (.num .one)
    let env : Environment := ⟨Bindings.empty.insert "i" tree, default⟩
    let e : Expr := call "sum" .sum [.num half, .num bound, body]
    Builtin.OfRange .sum .zero Decimal.add ∧
      e.eval.outcome env = .ok ⟨90, ⟨1, by decide, by decide⟩⟩ ∧
      (e.eval.after env).bindings.get? "i" = some tree ∧
      ∃ s : Evaluation.Sweep .zero Decimal.add (Expr.num half).eval (Expr.num bound).eval body.eval
        env ⟨90, ⟨1, by decide, by decide⟩⟩ (e.eval.after env), s.turns.length = 3 := by
  intro half bound body tree env e
  have hvalue : e.eval.outcome env = .ok ⟨90, ⟨1, by decide, by decide⟩⟩ :=
    eq_ok_of_toOption (by decide +kernel)
  obtain ⟨hsweep, hrestored⟩ :=
    sweep_of_evalTo .sum "sum" (.num half) (.num bound) body followDepth env
  obtain ⟨s⟩ := hsweep _ _ (Evaluation.run_eq_ok.mpr ⟨hvalue, rfl⟩)
  refine ⟨.sum, hvalue, hrestored half bound env env rfl rfl, s, ?_⟩
  have hfirst : half = s.first := (EStateM.Result.ok.inj s.lower_eq).1
  have hbound : bound = s.bound := (EStateM.Result.ok.inj s.upper_eq).1
  have htruncated : Decimal.truncated bound.value = 3 := by
    norm_num [Decimal.truncated, Decimal.value, bound, Int.floor_eq_iff]
  have hcount (k : ℕ) : k < s.turns.length ↔ half.value + k ≤ 3 := by
    rw [s.count, ← hfirst, ← hbound, htruncated, Int.cast_ofNat]
  have htwo : 2 < s.turns.length := (hcount 2).mpr (by norm_num [Decimal.value, half])
  have hthree : ¬ 3 < s.turns.length := fun h => by
    have := (hcount 3).mp h
    norm_num [Decimal.value, half] at this
  omega

end Expr

end Reckon
