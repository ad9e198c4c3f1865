import Reckon.Proofs.Evaluation.FreeVariables
import Reckon.Proofs.Evaluation.Operator
import Reckon.Proofs.Evaluation.Range

/-!
# Scales do not influence values

Two trees that differ only in the scales of their numbers, in environments that differ only in the
scales of the numbers that variables are bound to, have values that differ only in their scales, and
leave environments behind that differ only in scales. This holds where both evaluations succeed,
since a scale can be out of reach of an operation, and where nothing is left to binary64, which
treats scales differently.

Results:
* `Related.overRange`: two ranges of similar bounds go through as many steps.
* `Similar.related`: two runs of similar trees, side by side.
* `eval_similar`: similar trees in similar environments.
-/

namespace Reckon

/-! ## Bindings of the same values -/

namespace Bindings

variable {b b' c c' : Bindings}

theorem number?_congr {name other : String} (h : b.get? name = c.get? other) :
    b.number? name = c.number? other := by
  rw [number?, number?, h]

theorem number?_insert (b : Bindings) (name other : String) (value : Decimal) :
    (b.insert name (.num value)).number? other =
      if other = name then some value else b.number? other := by
  by_cases h : other = name
  · simp [number?, h]
  · simp [number?, h]

theorem number?_erase (b : Bindings) (name other : String) :
    (b.erase name).number? other = if other = name then none else b.number? other := by
  by_cases h : other = name
  · simp [number?, h]
  · simp [number?, h]

theorem number?_restore_get? (b c : Bindings) (name other : String) :
    (c.restore name (b.get? name)).number? other =
      if other = name then b.number? other else c.number? other := by
  by_cases h : other = name
  · rw [if_pos h]
    exact number?_congr (by simp [h])
  · rw [if_neg h]
    exact number?_congr (by simp [h])

/-- Both bind the same variables, to numbers of the same values. -/
structure Similar (b b' : Bindings) : Prop where
  left : b.Literal
  right : b'.Literal
  value_eq : ∀ name, (b.number? name).map Decimal.value = (b'.number? name).map Decimal.value

theorem similar_empty : empty.Similar empty where
  left := literal_empty
  right := literal_empty
  value_eq _ := rfl

theorem Similar.insert (h : b.Similar b') (name : String) {value value' : Decimal}
    (hvalue : value.value = value'.value) :
    (b.insert name (.num value)).Similar (b'.insert name (.num value')) where
  left := h.left.insert name value
  right := h.right.insert name value'
  value_eq other := by
    rw [number?_insert, number?_insert]
    by_cases ho : other = name
    · simp [ho, hvalue]
    · simp [ho, h.value_eq other]

theorem Similar.erase (h : b.Similar b') (name : String) :
    (b.erase name).Similar (b'.erase name) where
  left := h.left.erase name
  right := h.right.erase name
  value_eq other := by
    rw [number?_erase, number?_erase]
    by_cases ho : other = name
    · simp [ho]
    · simp [ho, h.value_eq other]

theorem Literal.restore (hb : b.Literal) (hc : c.Literal) (name : String) :
    (c.restore name (b.get? name)).Literal := by
  intro other tree h
  rw [get?_restore] at h
  by_cases ho : other = name
  · exact hb name tree (by simpa [ho] using h)
  · exact hc other tree (by simpa [ho] using h)

/-- A variable bound again as it was in similar bindings leaves similar bindings similar. -/
theorem Similar.restore (h : b.Similar b') (hc : c.Similar c') (name : String) :
    (c.restore name (b.get? name)).Similar (c'.restore name (b'.get? name)) where
  left := h.left.restore hc.left name
  right := h.right.restore hc.right name
  value_eq other := by
    rw [number?_restore_get?, number?_restore_get?]
    by_cases ho : other = name
    · simp [ho, h.value_eq name]
    · simp [ho, hc.value_eq other]

end Bindings

/-! ## Two runs side by side -/

/-- No power among the events is left to binary64. -/
def PowersIntegral (events : List Event) : Prop :=
  ∀ a b, .applied .pow a b ∈ events → b.isIntegral = true

/-- Two numbers are the same up to their scales. -/
def SameValue (a b : Decimal) : Prop := a.value = b.value

namespace Recorded

variable {α β γ δ : Type} {R : α → β → Prop} {S : γ → δ → Prop}

/-- Where both computations succeed, from similar bindings and without a power in binary64, their
results are related and the bindings are similar again. -/
def Related (R : α → β → Prop) (m : Recorded α) (m' : Recorded β) : Prop :=
  ∀ env env' : Environment, env.bindings.Similar env'.bindings → PowersIntegral (m.events env) →
    ∀ a a' env₁ env₁', m.evaluation env = .ok a env₁ → m'.evaluation env' = .ok a' env₁' →
      R a a' ∧ env₁.bindings.Similar env₁'.bindings

theorem related_pure {a : α} {a' : β} (h : R a a') : Related R (pure a) (pure a') := by
  intro env env' henv _ _ _ _ _ hrun hrun'
  cases hrun
  cases hrun'
  exact ⟨h, henv⟩

theorem related_throw (e : EvalError) (m' : Recorded β) : Related R (silent (throw e)) m' := by
  intro _ _ _ _ _ _ _ _ hrun
  cases hrun

theorem related_lift {r : Except ArithmeticError α} {r' : Except ArithmeticError β}
    (h : ∀ a a', r = .ok a → r' = .ok a' → R a a') :
    Related R (silent (.lift r)) (silent (.lift r')) := by
  intro env env' henv _ a a' env₁ env₁' hrun hrun'
  obtain ⟨hr, rfl⟩ := Evaluation.lift_eq_ok hrun
  obtain ⟨hr', rfl⟩ := Evaluation.lift_eq_ok hrun'
  exact ⟨h a a' hr hr', henv⟩

theorem related_bind {m : Recorded α} {m' : Recorded β} {f : α → Recorded γ} {f' : β → Recorded δ}
    (hm : Related R m m') (hf : ∀ a a', R a a' → Related S (f a) (f' a')) :
    Related S (m >>= f) (m' >>= f') := by
  intro env env' henv hpow b b' env₂ env₂' hrun hrun'
  obtain ⟨a, env₁, hm₁, hf₁⟩ := Evaluation.bind_eq_ok hrun
  obtain ⟨a', env₁', hm₁', hf₁'⟩ := Evaluation.bind_eq_ok hrun'
  rw [events_bind_of_ok hm₁] at hpow
  have hpow₁ : PowersIntegral (m.events env) :=
    fun x y h => hpow x y (List.mem_append_left _ h)
  have hpow₂ : PowersIntegral ((f a).events env₁) :=
    fun x y h => hpow x y (List.mem_append_right _ h)
  obtain ⟨ha, henv₁⟩ := hm env env' henv hpow₁ a a' env₁ env₁' hm₁ hm₁'
  exact hf a a' ha env₁ env₁' henv₁ hpow₂ b b' env₂ env₂' hf₁ hf₁'

theorem related_assign (name : String) {value value' : Decimal} (h : SameValue value value') :
    Related (fun _ _ => True) (assign name value) (assign name value') := by
  intro env env' henv _ a a' env₁ env₁' hrun hrun'
  cases hrun
  cases hrun'
  exact ⟨trivial, henv.insert name h⟩

/-- An operator on similar operands; the record says whether it is a power with an integral
exponent. -/
theorem related_applied (op : BinaryOp) {a a' b b' : Decimal} (ha : SameValue a a')
    (hb : SameValue b b') :
    Related SameValue (note (.applied op a b) >>= fun _ => silent (.lift (op.eval a b)))
      (note (.applied op a' b') >>= fun _ => silent (.lift (op.eval a' b'))) := by
  intro env env' henv hpow c c' env₁ env₁' hrun hrun'
  obtain ⟨hc, rfl⟩ := Evaluation.lift_eq_ok hrun
  obtain ⟨hc', rfl⟩ := Evaluation.lift_eq_ok hrun'
  refine ⟨BinaryOp.respectsValue (fun hop => hpow a b ?_) ha hb hc hc', henv⟩
  subst hop
  exact List.mem_append_left _ (List.mem_singleton_self _)

theorem related_withLocal (name : String) {body : Recorded α} {body' : Recorded β}
    (h : Related R body body') : Related R (withLocal name body) (withLocal name body') := by
  intro env env' henv hpow a a' env₁ env₁' hrun hrun'
  obtain ⟨env₂, hbody, henv₁⟩ := Evaluation.withLocal_eq_ok hrun
  obtain ⟨env₂', hbody', henv₁'⟩ := Evaluation.withLocal_eq_ok hrun'
  have hinside : PowersIntegral
      (body.events { env with bindings := env.bindings.erase name }) := by
    intro x y hxy
    refine hpow x y ?_
    rw [events_withLocal, List.mem_filter]
    exact ⟨hxy, rfl⟩
  obtain ⟨ha, henv₂⟩ := h _ _ (henv.erase name) hinside a a' env₂ env₂' hbody hbody'
  rw [henv₁, henv₁']
  exact ⟨ha, henv.restore henv₂ name⟩

theorem related_all {ms : List (Recorded α)} {ms' : List (Recorded β)}
    (h : List.Forall₂ (Related R) ms ms') : Related (List.Forall₂ R) (all ms) (all ms') := by
  induction h with
  | nil => exact related_pure .nil
  | cons hm _ ih =>
    refine related_bind hm fun a a' ha => related_bind ih fun rest rest' hrest => ?_
    exact related_pure (.cons ha hrest)

/-- As many steps of two ranges, from similar numbers on. -/
theorem related_repeatBody {combine : Decimal → Decimal → Except ArithmeticError Decimal}
    (hcombine : RespectsValue₂ combine) {body body' : Recorded Decimal}
    (hbody : Related SameValue body body') (count : ℕ) {i i' result result' : Decimal}
    (hi : SameValue i i') (hresult : SameValue result result') :
    Related SameValue (repeatBody combine body count i result)
      (repeatBody combine body' count i' result') := by
  induction count generalizing i i' result result' with
  | zero => exact related_pure hresult
  | succ count ih =>
    refine related_bind (related_assign loopVariable hi) fun _ _ _ =>
      related_bind hbody fun value value' hvalue => ?_
    refine related_bind (R := SameValue) (related_lift fun r r' hr hr' => ?_) fun r r' hr => ?_
    · exact hcombine _ _ _ _ r r' hresult hvalue hr hr'
    · refine related_bind (R := SameValue) (related_lift fun j j' hj hj' => ?_) fun j j' hj => ?_
      · exact Decimal.respectsValue₂_add _ _ _ _ j j' hi rfl hj hj'
      · exact ih hj hr

/-- Two ranges of similar bounds go through as many steps, if they succeed. -/
theorem related_steps {combine : Decimal → Decimal → Except ArithmeticError Decimal}
    (hcombine : RespectsValue₂ combine) {body body' : Recorded Decimal}
    (hbody : Related SameValue body body') {first first' last last' start : Decimal}
    (hfirst : SameValue first first') (hlast : SameValue last last') (hscale : last.scale = .zero)
    (hscale' : last'.scale = .zero) :
    Related SameValue (repeatBody combine body (Evaluation.steps first last) first start)
      (repeatBody combine body' (Evaluation.steps first' last') first' start) := by
  intro env env' henv hpow a a' env₁ env₁' hrun hrun'
  -- both ranges succeed, so their steps can be counted, by the values of their bounds alone
  have hcount := Evaluation.steps_eq hscale (Evaluation.countable_of_run (by simpa using hrun))
  have hcount' := Evaluation.steps_eq hscale' (Evaluation.countable_of_run (by simpa using hrun'))
  have hsteps : Evaluation.steps first' last' = Evaluation.steps first last := by
    rw [hcount, hcount', hfirst, hlast]
  rw [hsteps] at hrun'
  exact related_repeatBody hcombine hbody _ hfirst rfl env env' henv hpow a a' env₁ env₁' hrun hrun'

theorem related_overRange {combine : Decimal → Decimal → Except ArithmeticError Decimal}
    (hcombine : RespectsValue₂ combine) (start : Decimal)
    {lower lower' upper upper' body body' : Recorded Decimal}
    (hlower : Related SameValue lower lower') (hupper : Related SameValue upper upper')
    (hbody : Related SameValue body body') :
    Related SameValue (overRange start combine lower upper body)
      (overRange start combine lower' upper' body') := by
  refine related_bind hlower fun first first' hfirst =>
    related_bind hupper fun last last' hlast => ?_
  refine related_bind (R := fun x x' => SameValue x x' ∧ x.scale = .zero ∧ x'.scale = .zero)
    (related_lift fun x x' hx hx' => ?_) ?_
  · exact ⟨Decimal.respectsValue_trunc _ _ x x' hlast hx hx', (Decimal.roundToScale_ok hx).1,
      (Decimal.roundToScale_ok hx').1⟩
  · rintro x x' ⟨hx, hscale, hscale'⟩
    exact related_withLocal _ (related_steps hcombine hbody hfirst hx hscale hscale')

theorem related_toTarget {value value' : Recorded Decimal} (h : Related SameValue value value')
    (name : String) :
    Related SameValue (toTarget value (.var name)) (toTarget value' (.var name)) :=
  related_bind h fun _ _ hvalue =>
    related_bind (related_assign name hvalue) fun _ _ _ => related_pure hvalue

theorem related_var (name : String) :
    Related SameValue (silent (Expr.var name).eval) (silent (Expr.var name).eval) := by
  intro env env' henv _ a a' env₁ env₁' hrun hrun'
  obtain ⟨ha, rfl⟩ := Expr.eval_var_eq_ok henv.left hrun
  obtain ⟨ha', rfl⟩ := Expr.eval_var_eq_ok henv.right hrun'
  have := henv.value_eq name
  rw [ha, ha'] at this
  exact ⟨Option.some.inj this, henv⟩

end Recorded

/-! ## Calls of functions -/

namespace Builtin

variable {f : Builtin}

theorem respectsValue₂_of_range {start : Decimal}
    {combine : Decimal → Decimal → Except ArithmeticError Decimal}
    (hrule : f.rule = .range start combine) : RespectsValue₂ combine := by
  cases f <;> cases hrule
  · exact Decimal.respectsValue₂_add
  · exact Decimal.respectsValue₂_mul

/-- A function that is not left to binary64, on values. -/
theorem related_perform (hf : f ∉ inBinary64)
    (hrule : ∀ start combine, f.rule ≠ .range start combine) (name : String)
    {values values' : List Decimal} (h : List.Forall₂ SameValue values values') :
    Recorded.Related SameValue (.silent (f.perform name (values.map pure)))
      (.silent (f.perform name (values'.map pure))) := by
  obtain ⟨r, hr, hperform⟩ | ⟨rfl, -⟩ | hperform := f.perform_pure_cases name values hrule
  · obtain ⟨r', hr', hperform'⟩ | ⟨rfl, -⟩ | hperform' := f.perform_pure_cases name values' hrule
    · rw [hperform, hperform']
      refine Recorded.related_lift fun c c' hc hc' => ?_
      exact respectsValue hf h (hc ▸ hr) (hc' ▸ hr')
    · exact absurd (by decide) hf
    · intro env env' _ _ a a' env₁ env₁' _ hrun'
      rw [hperform'] at hrun'
      cases hrun'
  · exact absurd (by decide) hf
  · rw [hperform]
    exact Recorded.related_throw _ _

theorem related_recorded (hf : f ∉ inBinary64) (name : String)
    {arguments arguments' : List (Recorded Decimal)}
    (h : List.Forall₂ (Recorded.Related SameValue) arguments arguments') :
    Recorded.Related SameValue (f.recorded name arguments) (f.recorded name arguments') := by
  obtain ⟨start, combine, lower, upper, body, hrule, rfl, hrecorded⟩ | ⟨hrule, ha, hrecorded⟩ |
    ⟨-, hrecorded⟩ := f.recorded_cases name arguments <;> rw [hrecorded]
  · rcases h with _ | ⟨hlower, _ | ⟨hupper, _ | ⟨hbody, _ | _⟩⟩⟩
    rw [recorded_range hrule]
    exact Recorded.related_overRange (respectsValue₂_of_range hrule) start hlower hupper hbody
  · rw [recorded_eager hrule name (h.length_eq ▸ ha)]
    refine Recorded.related_bind (Recorded.related_all h) fun values values' hvalues => ?_
    exact related_perform hf hrule name hvalues
  · exact Recorded.related_throw _ _

end Builtin

/-! ## Similar trees -/

namespace Expr

/-- Two trees differ in nothing but the scales of their numbers. -/
inductive Similar : Expr → Expr → Prop
  | num {value value' : Decimal} (h : SameValue value value') : Similar (num value) (num value')
  | var (name : String) : Similar (var name) (var name)
  | unary (op : UnaryOp) {operand operand' : Expr} (h : Similar operand operand') :
    Similar (unary op operand) (unary op operand')
  | binary (op : BinaryOp) {left left' right right' : Expr} (hl : Similar left left')
    (hr : Similar right right') : Similar (binary op left right) (binary op left' right')
  | assign {target target' value value' : Expr} (ht : Similar target target')
    (hv : Similar value value') : Similar (assign target value) (assign target' value')
  | call (name : String) (f : Builtin) {arguments arguments' : List Expr}
    (h : List.Forall₂ Similar arguments arguments') :
    Similar (call name f arguments) (call name f arguments')

/-- Two runs of similar trees, side by side. -/
theorem Similar.related {e e' : Expr} (he : e.Similar e')
    (hf : ∀ f ∈ e.functions, f ∉ Builtin.inBinary64) :
    Recorded.Related SameValue e.recorded e'.recorded := by
  induction e using Expr.induction generalizing e' with
  | num value =>
    cases he with
    | num h =>
      rw [recorded, recorded]
      exact Recorded.related_pure h
  | var name =>
    cases he
    rw [recorded]
    exact Recorded.related_var name
  | unary op operand ih =>
    cases he with
    | unary _ h =>
      rw [functions] at hf
      rw [recorded, recorded]
      refine Recorded.related_bind (ih h hf) fun a a' ha =>
        Recorded.related_lift fun c c' hc hc' => ?_
      exact op.respectsValue a a' c c' ha hc hc'
  | binary op left right ihl ihr =>
    cases he with
    | binary _ hl hr =>
      simp only [functions, List.mem_append] at hf
      rw [recorded, recorded]
      refine Recorded.related_bind (ihl hl fun f h => hf f (.inl h)) fun a a' ha =>
        Recorded.related_bind (ihr hr fun f h => hf f (.inr h)) fun b b' hb => ?_
      exact Recorded.related_applied op ha hb
  | assign target value _ ih =>
    cases he with
    | assign ht hv =>
      simp only [functions, List.mem_append] at hf
      rw [recorded, recorded]
      cases ht with
      | var name => exact Recorded.related_toTarget (ih hv fun f h => hf f (.inr h)) name
      | _ => exact Recorded.related_throw _ _
  | call name f arguments ih =>
    cases he with
    | call _ _ h =>
      simp only [functions, functionsAll_eq_flatMap, List.mem_cons, List.mem_flatMap] at hf
      rw [recorded, recorded, recordedAll_eq_map, recordedAll_eq_map]
      refine Builtin.related_recorded (hf f (.inl rfl)) name ?_
      have harguments a (ha : a ∈ arguments) {a' : Expr} (h : a.Similar a') :
          Recorded.Related SameValue a.recorded a'.recorded :=
        ih a ha h fun f hmem => hf f (.inr ⟨a, ha, hmem⟩)
      clear ih hf
      induction h with
      | nil => exact .nil
      | cons h _ ihrest =>
        refine .cons (harguments _ (by simp) h) (ihrest fun a ha => ?_)
        exact harguments a (by simp [ha])

/-- **Scales do not influence values.** Similar trees in similar environments, where both
evaluations succeed and no power is left to binary64, have the same value up to its scale and leave
similar environments behind. -/
theorem eval_similar {e e' : Expr} (he : e.Similar e')
    (hf : ∀ f ∈ e.functions, f ∉ Builtin.inBinary64) {env env' : Environment}
    (henv : env.bindings.Similar env'.bindings) (hpow : PowersIntegral (e.events env))
    {a a' : Decimal} {env₁ env₁' : Environment} (hrun : e.eval env = .ok a env₁)
    (hrun' : e'.eval env' = .ok a' env₁') :
    a.value = a'.value ∧ env₁.bindings.Similar env₁'.bindings :=
  he.related hf env env' henv hpow a a' env₁ env₁' (by simpa using hrun) (by simpa using hrun')

theorem eval_similar_sum :
    let tenths (n : ℤ) : Decimal := ⟨n, ⟨1, by decide, by decide⟩⟩
    let e : Expr := call "sum" .sum [num (.ofInt 1), num (tenths 20),
      assign (var "a") (binary .pow (var "x") (var "i"))]
    let e' : Expr := call "sum" .sum [num (tenths 10), num (.ofInt 2),
      assign (var "a") (binary .pow (var "x") (var "i"))]
    let env : Environment := ⟨Bindings.empty.insert "x" (num (.ofInt 3)), default⟩
    let env' : Environment := ⟨Bindings.empty.insert "x" (num (tenths 30)), ⟨fun n => .ofNat n, 1⟩⟩
    let a' : Decimal := ⟨1200, ⟨2, by decide, by decide⟩⟩
    e.Similar e' ∧ e.eval.outcome env = .ok (.ofInt 12) ∧ e'.eval.outcome env' = .ok a' ∧
      (Decimal.ofInt 12).value = a'.value ∧
      (e.eval.after env).bindings.Similar (e'.eval.after env').bindings := by
  intro tenths e e' env env' a'
  have hten (n : ℤ) : SameValue (.ofInt n) (tenths (n * 10)) := by
    simp [SameValue, Decimal.value, tenths, Decimal.ofInt]
  have he : e.Similar e' := by
    refine .call _ _ (.cons (.num (hten 1)) (.cons (.num (hten 2).symm) (.cons ?_ .nil)))
    exact .assign (.var "a") (.binary .pow (.var "x") (.var "i"))
  have henv : env.bindings.Similar env'.bindings :=
    Bindings.similar_empty.insert "x" (hten 3)
  have hevents : e.events env = [.applied .pow (.ofInt 3) (.ofInt 1), .assigned "a" (.ofInt 3),
      .applied .pow (.ofInt 3) (.ofInt 2), .assigned "a" (.ofInt 9)] := by decide +kernel
  have hpow : PowersIntegral (e.events env) := by
    intro a b h
    simp [hevents] at h
    rcases h with ⟨-, rfl⟩ | ⟨-, rfl⟩ <;> rfl
  have hrun : e.eval.outcome env = .ok (.ofInt 12) := eq_ok_of_toOption (by decide +kernel)
  have hrun' : e'.eval.outcome env' = .ok a' := eq_ok_of_toOption (by decide +kernel)
  have h := eval_similar he (by decide) henv hpow (Evaluation.run_eq_ok.mpr ⟨hrun, rfl⟩)
    (Evaluation.run_eq_ok.mpr ⟨hrun', rfl⟩)
  exact ⟨he, hrun, hrun', h⟩

end Expr

end Reckon
