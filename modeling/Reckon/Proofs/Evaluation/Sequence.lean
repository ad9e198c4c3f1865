import Reckon.Proofs.Evaluation.Erasure

/-!
# Properties of evaluations in sequence

Most of an evaluation is a sequence of smaller ones. A property of recorded computations that a
sequence inherits from its parts is therefore inherited by the call of every function, once it is
known of the two things that are no sequence: the draw of a random number and the body of a range,
which has a variable of its own.

Results:
* `perform_pure_cases`: what functions make of values.
* `Sequential.call`, `Scoped.call`: the call of a function inherits such a property from its
  arguments, and the names that the property is about from the arguments as well.
-/

namespace Reckon

namespace Rule

/-- The result of a rule that is a function of the values of its arguments, if it takes as many.
Random numbers and ranges are no such functions. -/
def result? : Rule → List Decimal → Option (Except ArithmeticError Decimal)
  | unary f, [a] => some (f a)
  | binary f, [a, b] => some (f a b)
  | either f _, [a] => some (f a)
  | either _ g, [a, b] => some (g a b)
  | several f, a :: b :: rest => some (f a (b :: rest))
  | _, _ => none

theorem perform?_pure {r : Rule} {values : List Decimal} {result : Except ArithmeticError Decimal}
    (h : r.result? values = some result) : r.perform? (values.map pure) = some (.lift result) := by
  unfold result? at h
  split at h <;> cases h <;> simp [perform?, Evaluation.all, Evaluation.all_map_pure]

/-- Only a random number and a range are more than a function of values. -/
theorem exists_result? {r : Rule} {values : List Decimal} (hrandom : r ≠ .random)
    (hrange : ∀ start combine, r ≠ .range start combine)
    (ha : r.arity.accepts values.length = true) : ∃ result, r.result? values = some result := by
  rw [← Option.isSome_iff_exists]
  rcases values with _ | ⟨a, _ | ⟨b, _ | ⟨c, rest⟩⟩⟩ <;> cases r <;>
    simp_all [result?, arity, Arity.accepts]

end Rule

namespace Builtin

theorem rule_eq_random {f : Builtin} : f.rule = .random ↔ f = .random := by
  cases f <;> simp [rule, elementary, elementary₂]

theorem perform_pure {f : Builtin} (name : String) {values : List Decimal}
    {result : Except ArithmeticError Decimal} (h : f.rule.result? values = some result) :
    f.perform name (values.map pure) = .lift result := by
  rw [perform_eq_getD, Rule.perform?_pure h, Option.getD_some]

/-- On values a function other than those of ranges gives a number, an error or a random number. -/
theorem perform_pure_cases (f : Builtin) (name : String) (values : List Decimal)
    (hrange : ∀ start combine, f.rule ≠ .range start combine) :
    (∃ result, f.rule.result? values = some result ∧
      f.perform name (values.map pure) = .lift result) ∨
    (f = random ∧ values = []) ∨
    f.perform name (values.map pure) = throw (.argumentCount name f.arity values.length) := by
  by_cases ha : f.arity.accepts values.length = true
  · by_cases hrandom : f.rule = .random
    · refine .inr (.inl ⟨rule_eq_random.mp hrandom, ?_⟩)
      rw [← rule_arity, hrandom] at ha
      simpa [Rule.arity, Arity.accepts] using ha
    · obtain ⟨result, h⟩ := Rule.exists_result? hrandom hrange (f.rule_arity ▸ ha)
      exact .inl ⟨result, h, perform_pure name h⟩
  · refine .inr (.inr ?_)
    rw [perform_of_not_accepts name (by simpa using ha), List.length_map]

end Builtin

/-- A property of computations that holds of values and errors and that a sequence inherits from
its parts. -/
structure Sequential (P : (α : Type) → Recorded α → Prop) : Prop where
  pure : ∀ {α : Type} (a : α), P α (pure a)
  fail : ∀ {α : Type} (e : EvalError), P α (.silent (throw e))
  bind : ∀ {α β : Type} {m : Recorded α} {f : α → Recorded β},
    P α m → (∀ a, P β (f a)) → P β (m >>= f)

namespace Sequential

variable {P : (α : Type) → Recorded α → Prop}

theorem lift (h : Sequential P) {α : Type} (result : Except ArithmeticError α) :
    P α (.silent (.lift result)) := by
  cases result with
  | ok a => exact h.pure a
  | error e => exact h.fail _

theorem all (h : Sequential P) {α : Type} {ms : List (Recorded α)} (hms : ∀ m ∈ ms, P α m) :
    P (List α) (.all ms) := by
  induction ms with
  | nil => exact h.pure []
  | cons m rest ih =>
    refine h.bind (hms m (by simp)) fun value => h.bind (ih fun m hm => hms m (by simp [hm])) ?_
    exact fun values => h.pure (value :: values)

/-- Nothing is assigned to a target that is no variable. -/
theorem toTarget (h : Sequential P) {value : Recorded Decimal} (hvalue : P Decimal value)
    {target : Expr} (hassign : ∀ name, target = .var name → ∀ v, P Unit (.assign name v)) :
    P Decimal (.toTarget value target) := by
  cases target with
  | var name => exact h.bind hvalue fun v => h.bind (hassign name rfl v) fun _ => h.pure v
  | _ => exact h.fail _

theorem repeatBody (h : Sequential P)
    (combine : Decimal → Decimal → Except ArithmeticError Decimal) {body : Recorded Decimal}
    (hassign : ∀ value, P Unit (.assign loopVariable value)) (hbody : P Decimal body) (count : Nat)
    (i result : Decimal) : P Decimal (.repeatBody combine body count i result) := by
  induction count generalizing i result with
  | zero => exact h.pure result
  | succ count ih =>
    refine h.bind (hassign i) fun _ => h.bind hbody fun value => ?_
    exact h.bind (h.lift _) fun result => h.bind (h.lift _) fun i => ih i result

/-- A call inherits what its arguments have. Drawing a random number and the body of a range are no
sequences, so they are asked for. -/
theorem call (h : Sequential P) (name : String) {f : Builtin} {arguments : List Expr}
    (hdraw : f = .random → P Binary64 (.silent .draw))
    (heager : (∀ start combine, f.rule ≠ .range start combine) →
      ∀ e ∈ arguments, P Decimal e.recorded)
    (hrange : ∀ start combine lower upper body, f.rule = .range start combine →
      arguments = [lower, upper, body] → P Decimal lower.recorded ∧ P Decimal upper.recorded ∧
        ∀ count i result, P Decimal
          (.withLocal loopVariable (.repeatBody combine body.recorded count i result))) :
    P Decimal (Expr.call name f arguments).recorded := by
  rw [Expr.recorded, Expr.recordedAll_eq_map]
  obtain ⟨start, combine, lower, upper, body, hrule, hargs, hf⟩ | ⟨hrule, ha, hf⟩ | ⟨ha, hf⟩ :=
    f.recorded_cases name (arguments.map Expr.recorded) <;> rw [hf]
  · obtain ⟨l, u, b, rfl⟩ : ∃ l u b, arguments = [l, u, b] :=
      List.length_eq_three.mp (by simpa using congrArg List.length hargs)
    cases hargs
    obtain ⟨hlower, hupper, hbody⟩ := hrange start combine l u b hrule rfl
    refine h.bind hlower fun first => h.bind hupper fun last => h.bind (h.lift _) fun last => ?_
    exact hbody _ _ _
  · refine h.bind (h.all (by simpa using heager hrule)) fun values => ?_
    obtain ⟨result, -, hperform⟩ | ⟨rfl, rfl⟩ | hperform := f.perform_pure_cases name values hrule
    · exact hperform ▸ h.lift result
    · exact h.bind (hdraw rfl) fun x => h.lift _
    · exact hperform ▸ h.fail _
  · exact h.fail _

end Sequential

/-! ## Names in scope -/

/-- The names that the arguments of a call contribute, where those of the body of a range do not
include the variable of the range. -/
def Builtin.namesOf (f : Builtin) (arguments : List (List String)) : List String :=
  match f.rule, arguments with
  | .range _ _, [lower, upper, body] => lower ++ upper ++ body.filter (· ≠ loopVariable)
  | _, arguments => arguments.flatten

namespace Builtin

variable {f : Builtin}

theorem namesOf_eq_flatten (hrule : ∀ start combine, f.rule ≠ .range start combine)
    (arguments : List (List String)) : f.namesOf arguments = arguments.flatten := by
  unfold namesOf
  split
  · exact absurd ‹_› (hrule _ _)
  · rfl

theorem namesOf_range {start : Decimal}
    {combine : Decimal → Decimal → Except ArithmeticError Decimal}
    (hrule : f.rule = .range start combine) (lower upper body : List String) :
    f.namesOf [lower, upper, body] = lower ++ upper ++ body.filter (· ≠ loopVariable) := by
  simp only [namesOf, hrule]

end Builtin

/-- What holds of computations relative to some variables, among them those that they bind, where a
computation with a variable of its own is free to use that variable inside. -/
structure Scoped (P : List String → (α : Type) → Recorded α → Prop) : Prop where
  sequential : ∀ names, Sequential (P names)
  mono : ∀ {α : Type} {m : Recorded α} {names more : List String},
    P names α m → (∀ name ∈ names, name ∈ more) → P more α m
  assign : ∀ {names : List String} {name : String} (value : Decimal),
    name ∈ names → P names Unit (.assign name value)
  withLocal : ∀ {α : Type} {own : String} {names : List String} {body : Recorded α},
    P (own :: names) α body → P names α (.withLocal own body)

/-- A call inherits what its arguments have relative to the names that each contributes. -/
theorem Scoped.call {P : List String → (α : Type) → Recorded α → Prop} (h : Scoped P)
    (name : String) {f : Builtin} {arguments : List Expr} (names : Expr → List String)
    (hdraw : f = .random → ∀ names, P names Binary64 (.silent .draw))
    (harguments : ∀ a ∈ arguments, P (names a) Decimal a.recorded) :
    P (f.namesOf (arguments.map names)) Decimal (Expr.call name f arguments).recorded := by
  refine (h.sequential _).call name (fun hf => hdraw hf _) (fun hrule a ha => ?_) ?_
  · refine h.mono (harguments a ha) fun target htarget => ?_
    rw [Builtin.namesOf_eq_flatten hrule]
    exact List.mem_flatten_of_mem (List.mem_map_of_mem ha) htarget
  · rintro start combine lower upper body hrule rfl
    have hnames := Builtin.namesOf_range hrule (names lower) (names upper) (names body)
    refine ⟨h.mono (harguments lower (by simp)) ?_, h.mono (harguments upper (by simp)) ?_, ?_⟩
    · simp +contextual [hnames]
    · simp +contextual [hnames]
    · intro count i result
      refine h.withLocal ((h.sequential _).repeatBody _ ?_ ?_ count i result)
      · exact fun value => h.assign value (by simp)
      · refine h.mono (harguments body (by simp)) fun target htarget => ?_
        by_cases hi : target = loopVariable
        · simp [hi]
        · simp [hnames, htarget, hi]

end Reckon
