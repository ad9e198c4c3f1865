import Reckon.Proofs.Evaluation.Frame

/-!
# What an evaluation depends on

An evaluation reads the free variables of its tree and nothing else, except for the source of random
numbers, which only a tree with `rand` reads. The variable of a range is free in the bounds of the
range but not in its body: the body finds what the range binds it to, whatever it is bound to
outside, and what it is bound to outside is bound again afterwards.

Results:
* `recorded_dependsOn`: environments that agree on the free variables give the same value or error
  and the same events.
* `eval_agree`: and what these environments agree on afterwards.
* `hygienic_loop`: a range neither changes what its variable is bound to outside nor depends on it.
* `eval_congr`: all of it together.
-/

namespace Reckon

/-! ## Free variables -/

namespace Expr

mutual

/-- The variables that a tree reads. The target of an assignment is not read. -/
def freeVariables : Expr → List String
  | num _ => []
  | var name => [name]
  | unary _ operand => operand.freeVariables
  | binary _ left right => left.freeVariables ++ right.freeVariables
  | assign _ value => value.freeVariables
  | call _ f arguments => f.namesOf (freeVariablesAll arguments)

/-- The variables that each of several trees reads. -/
def freeVariablesAll : List Expr → List (List String)
  | [] => []
  | e :: rest => e.freeVariables :: freeVariablesAll rest

end

mutual

/-- The functions that a tree calls. -/
def functions : Expr → List Builtin
  | num _ => []
  | var _ => []
  | unary _ operand => operand.functions
  | binary _ left right => left.functions ++ right.functions
  | assign target value => target.functions ++ value.functions
  | call _ f arguments => f :: functionsAll arguments

/-- The functions that several trees call. -/
def functionsAll : List Expr → List Builtin
  | [] => []
  | e :: rest => e.functions ++ functionsAll rest

end

theorem freeVariablesAll_eq_map (arguments : List Expr) :
    freeVariablesAll arguments = arguments.map freeVariables := by
  induction arguments with
  | nil => rfl
  | cons first rest ih => simp [freeVariablesAll, ih]

theorem functionsAll_eq_flatMap (arguments : List Expr) :
    functionsAll arguments = arguments.flatMap functions := by
  induction arguments with
  | nil => rfl
  | cons first rest ih => simp [functionsAll, ih]

end Expr

/-! ## Two runs of one computation -/

/-- Both environments bind these variables alike. -/
def Environment.AgreeOn (names : List String) (env env' : Environment) : Prop :=
  ∀ name ∈ names, env.bindings.get? name = env'.bindings.get? name

namespace Recorded

variable {α β : Type} {names : List String}

/-- The computation reads no variables but these: literal environments that agree on them give the
same value or error and the same events. -/
structure DependsOn (names : List String) (m : Recorded α) : Prop where
  faithful : m.Faithful
  outcome_eq : ∀ env env' : Environment, env.bindings.Literal → env'.bindings.Literal →
    env.AgreeOn names env' → m.evaluation.outcome env = m.evaluation.outcome env'
  events_eq : ∀ env env' : Environment, env.bindings.Literal → env'.bindings.Literal →
    env.AgreeOn names env' → m.events env = m.events env'

theorem DependsOn.mono {more : List String} {m : Recorded α} (hm : m.DependsOn names)
    (h : ∀ name ∈ names, name ∈ more) : m.DependsOn more where
  faithful := hm.faithful
  outcome_eq env env' henv henv' hagree :=
    hm.outcome_eq env env' henv henv' fun name hname => hagree name (h name hname)
  events_eq env env' henv henv' hagree :=
    hm.events_eq env env' henv henv' fun name hname => hagree name (h name hname)

/-- Two runs that go through the same events agree afterwards where they agreed before and where
something was assigned. -/
theorem Faithful.get?_after_eq {m : Recorded α} (hm : m.Faithful) {env env' : Environment}
    (henv : env.bindings.Literal) (henv' : env'.bindings.Literal)
    (hevents : m.events env = m.events env') {name : String}
    (h : env.bindings.get? name = env'.bindings.get? name ∨
      ∃ value, .assigned name value ∈ m.events env) :
    (m.evaluation.after env).bindings.get? name = (m.evaluation.after env').bindings.get? name := by
  rw [hm env henv, hm env' henv', ← hevents]
  rcases h with h | ⟨value, h⟩
  · rw [h]
  · cases hlast : lastAssigned? name (m.events env) with
    | some value => simp
    | none =>
      have := List.findSome?_eq_none_iff.mp hlast _ (List.mem_reverse.mpr h)
      simp [Event.value?] at this

theorem dependsOn_bind {m : Recorded α} {f : α → Recorded β} (hm : m.DependsOn names)
    (hf : ∀ a, (f a).DependsOn names) : (m >>= f).DependsOn names := by
  have hruns (env env' : Environment) (henv : env.bindings.Literal) (henv' : env'.bindings.Literal)
      (hagree : env.AgreeOn names env') :
      (m >>= f).evaluation.outcome env = (m >>= f).evaluation.outcome env' ∧
        (m >>= f).events env = (m >>= f).events env' := by
    have houtcome := hm.outcome_eq env env' henv henv' hagree
    have hevents := hm.events_eq env env' henv henv' hagree
    cases hrun : m.evaluation.outcome env with
    | error e =>
      have hrun₁ := Evaluation.run_eq_error.mpr ⟨hrun, rfl⟩
      have hrun₂ := Evaluation.run_eq_error.mpr ⟨houtcome.symm.trans hrun, rfl⟩
      rw [evaluation_bind, Evaluation.outcome_bind_of_error hrun₁,
        Evaluation.outcome_bind_of_error hrun₂, events_bind_of_error hrun₁,
        events_bind_of_error hrun₂]
      exact ⟨rfl, hevents⟩
    | ok a =>
      have hrun₁ := Evaluation.run_eq_ok.mpr ⟨hrun, rfl⟩
      have hrun₂ := Evaluation.run_eq_ok.mpr ⟨houtcome.symm.trans hrun, rfl⟩
      -- both runs assign the same, so the second part finds environments that agree as before
      have hafter : (m.evaluation.after env).AgreeOn names (m.evaluation.after env') :=
        fun name hname =>
          hm.faithful.get?_after_eq henv henv' hevents (.inl (hagree name hname))
      have hlit := hm.faithful.literal henv
      have hlit' := hm.faithful.literal henv'
      rw [evaluation_bind, Evaluation.outcome_bind_of_ok hrun₁, Evaluation.outcome_bind_of_ok hrun₂,
        events_bind_of_ok hrun₁, events_bind_of_ok hrun₂, hevents,
        (hf a).outcome_eq _ _ hlit hlit' hafter, (hf a).events_eq _ _ hlit hlit' hafter]
      exact ⟨rfl, rfl⟩
  exact ⟨faithful_bind hm.faithful fun a => (hf a).faithful,
    fun env env' henv henv' hagree => (hruns env env' henv henv' hagree).1,
    fun env env' henv henv' hagree => (hruns env env' henv henv' hagree).2⟩

/-- A computation that gives the same everywhere reads nothing. -/
theorem dependsOn_of_const {m : Recorded α} (hm : m.Faithful)
    (houtcome : ∀ env env', m.evaluation.outcome env = m.evaluation.outcome env')
    (hevents : ∀ env env', m.events env = m.events env') : m.DependsOn names where
  faithful := hm
  outcome_eq env env' _ _ _ := houtcome env env'
  events_eq env env' _ _ _ := hevents env env'

theorem sequential_dependsOn (names : List String) : Sequential fun _ m => m.DependsOn names where
  pure a := dependsOn_of_const (sequential_faithful.pure a) (fun _ _ => rfl) fun _ _ => rfl
  fail e := dependsOn_of_const (sequential_faithful.fail e) (fun _ _ => rfl) fun _ _ => rfl
  bind := dependsOn_bind

theorem dependsOn_note_applied (op : BinaryOp) (a b : Decimal) :
    (note (.applied op a b)).DependsOn names :=
  dependsOn_of_const (faithful_note_applied op a b) (fun _ _ => rfl) fun _ _ => rfl

theorem dependsOn_assign (name : String) (value : Decimal) : (assign name value).DependsOn names :=
  dependsOn_of_const (faithful_assign name value) (fun _ _ => rfl) fun _ _ => rfl

theorem dependsOn_var (name : String) :
    (silent (Expr.var name).eval).DependsOn [name] where
  faithful := by simpa [Expr.recorded] using (Expr.var name).recorded_faithful
  outcome_eq env env' henv _ hagree := by
    have hget := hagree name (by simp)
    rw [evaluation_silent, Evaluation.outcome, Evaluation.outcome]
    cases h : env.bindings.get? name with
    | none => rw [Expr.eval_var_of_none h, Expr.eval_var_of_none (hget ▸ h)]
    | some tree =>
      obtain ⟨value, rfl⟩ := henv name tree h
      rw [Expr.eval_var_of_num h, Expr.eval_var_of_num (hget ▸ h)]
  events_eq _ _ _ _ _ := rfl

/-- The own variable of a computation is unbound at first whatever it is bound to outside, so the
computation does not depend on that. -/
theorem dependsOn_withLocal {own : String} {body : Recorded α}
    (hbody : body.DependsOn (own :: names)) : (withLocal own body).DependsOn names := by
  have hagree {env env' : Environment} (h : env.AgreeOn names env') :
      Environment.AgreeOn (own :: names) { env with bindings := env.bindings.erase own }
        { env' with bindings := env'.bindings.erase own } := by
    intro name hname
    rcases List.mem_cons.mp hname with rfl | hname
    · simp
    · simp [h name hname]
  refine ⟨faithful_withLocal own hbody.faithful, fun env env' henv henv' h => ?_,
    fun env env' henv henv' h => ?_⟩
  · rw [evaluation_withLocal, Evaluation.outcome_withLocal, Evaluation.outcome_withLocal]
    exact hbody.outcome_eq _ _ (henv.erase own) (henv'.erase own) (hagree h)
  · rw [events_withLocal, events_withLocal,
      hbody.events_eq _ _ (henv.erase own) (henv'.erase own) (hagree h)]

theorem scoped_dependsOn : Scoped fun names _ m => m.DependsOn names where
  sequential := sequential_dependsOn
  mono := DependsOn.mono
  assign value _ := dependsOn_assign _ value
  withLocal := dependsOn_withLocal

end Recorded

/-- Without `rand`, an evaluation depends on the free variables of its tree only. -/
theorem Expr.recorded_dependsOn (e : Expr) (hrandom : .random ∉ e.functions) :
    e.recorded.DependsOn e.freeVariables := by
  have hseq := Recorded.sequential_dependsOn
  induction e using Expr.induction with
  | num value =>
    rw [recorded]
    exact (hseq _).pure value
  | var name =>
    rw [recorded, freeVariables]
    exact Recorded.dependsOn_var name
  | unary op operand ih =>
    rw [functions] at hrandom
    rw [recorded, freeVariables]
    exact (hseq _).bind (ih hrandom) fun a => (hseq _).lift _
  | binary op left right ihl ihr =>
    rw [functions, List.mem_append, not_or] at hrandom
    rw [recorded, freeVariables]
    refine (hseq _).bind ((ihl hrandom.1).mono (by simp +contextual)) fun a =>
      (hseq _).bind ((ihr hrandom.2).mono (by simp +contextual)) fun b => ?_
    exact (hseq _).bind (Recorded.dependsOn_note_applied op a b) fun _ => (hseq _).lift _
  | assign target value _ ih =>
    rw [functions, List.mem_append, not_or] at hrandom
    rw [recorded, freeVariables]
    exact (hseq _).toTarget (ih hrandom.2) fun name _ => Recorded.dependsOn_assign name
  | call name f arguments ih =>
    rw [functions, List.mem_cons, not_or, functionsAll_eq_flatMap] at hrandom
    obtain ⟨hf, hrandom⟩ := hrandom
    have ih a (ha : a ∈ arguments) := ih a ha fun h => hrandom (List.mem_flatMap.mpr ⟨a, ha, h⟩)
    rw [freeVariables, freeVariablesAll_eq_map]
    exact Recorded.scoped_dependsOn.call name freeVariables (fun h => absurd h.symm hf) ih

/-! ## The variable of a range -/

theorem Bindings.erase_restore (b : Bindings) (name : String) (saved : Option Expr) :
    (b.restore name saved).erase name = b.erase name := by
  cases saved <;> simp [restore, insert, erase, List.filter_filter]

namespace Evaluation

variable {α : Type}

/-- The computation neither changes the variable of ranges nor depends on it. -/
structure Hygienic (m : Evaluation α) : Prop where
  /-- The variable is bound as before, or still unbound. -/
  keeps : ∀ env, (m.after env).bindings.get? loopVariable = env.bindings.get? loopVariable
  /-- Binding the variable to anything else, or to nothing, gives the same value or error. -/
  outcome_restore : ∀ (env : Environment) saved,
    m.outcome { env with bindings := env.bindings.restore loopVariable saved } = m.outcome env
  /-- It leaves all other variables bound to the same. -/
  after_restore : ∀ (env : Environment) saved name, name ≠ loopVariable →
    (m.after { env with bindings := env.bindings.restore loopVariable saved }).bindings.get? name =
      (m.after env).bindings.get? name

theorem hygienic_withLocal (body : Evaluation α) : (withLocal loopVariable body).Hygienic where
  keeps env := by simp [after_withLocal]
  outcome_restore env saved := by
    rw [outcome_withLocal, outcome_withLocal, Bindings.erase_restore]
  after_restore env saved name hname := by
    simp [after_withLocal, Bindings.erase_restore, hname]

theorem hygienic_throw (e : EvalError) : (throw e : Evaluation α).Hygienic where
  keeps _ := rfl
  outcome_restore _ _ := rfl
  after_restore env saved name hname := by simp [hname]

end Evaluation

namespace Expr

/-- What a range does once its bounds are evaluated. -/
def loop (start : Decimal) (combine : Decimal → Decimal → Except ArithmeticError Decimal)
    (body : Expr) (first last : Decimal) : Evaluation Decimal := do
  let last ← .lift last.trunc
  .withLocal loopVariable
    (.repeatBody combine body.eval (Evaluation.steps first last) first start)

theorem eval_range {f : Builtin} {start : Decimal}
    {combine : Decimal → Decimal → Except ArithmeticError Decimal}
    (hrule : f.rule = .range start combine) (name : String) (lower upper body : Expr) :
    (call name f [lower, upper, body]).eval =
      lower.eval >>= fun first => upper.eval >>= loop start combine body first := by
  rw [eval_overRange hrule]
  rfl

/-- However a body ends, the range around it has its variable for itself. -/
theorem hygienic_loop (start : Decimal)
    (combine : Decimal → Decimal → Except ArithmeticError Decimal) (body : Expr)
    (first last : Decimal) : (loop start combine body first last).Hygienic := by
  unfold loop
  cases last.trunc with
  | ok last => exact Evaluation.hygienic_withLocal _
  | error e => exact Evaluation.hygienic_throw _

/-- What environments that agree on the free variables of a tree without `rand` have in common:
the value or error, the events, and afterwards what the environments agreed on before and what was
assigned. -/
theorem eval_agree (e : Expr) (hrandom : .random ∉ e.functions) {env env' : Environment}
    (henv : env.bindings.Literal) (henv' : env'.bindings.Literal)
    (hagree : env.AgreeOn e.freeVariables env') :
    e.eval.outcome env = e.eval.outcome env' ∧ e.events env = e.events env' ∧
    ∀ name, (env.bindings.get? name = env'.bindings.get? name ∨
        ∃ value, .assigned name value ∈ e.events env) →
      (e.eval.after env).bindings.get? name = (e.eval.after env').bindings.get? name := by
  have hdepends := e.recorded_dependsOn hrandom
  have hevents := hdepends.events_eq env env' henv henv' hagree
  have houtcome := hdepends.outcome_eq env env' henv henv' hagree
  have hafter name (h : env.bindings.get? name = env'.bindings.get? name ∨
      ∃ value, .assigned name value ∈ e.events env) :=
    hdepends.faithful.get?_after_eq henv henv' hevents h
  rw [evaluation_recorded] at houtcome hafter
  exact ⟨houtcome, hevents, hafter⟩

/-- **Evaluation depends on the free variables only.** Without `rand`, literal environments that
agree on the free variables of a tree give the same value or error and the same events, and
afterwards they agree where they agreed before and where an assignment was completed. The variable
of a range is bound outside as it was before, and its binding outside plays no part inside. -/
theorem eval_congr (e : Expr) (hrandom : .random ∉ e.functions) {env env' : Environment}
    (henv : env.bindings.Literal) (henv' : env'.bindings.Literal)
    (hagree : env.AgreeOn e.freeVariables env') :
    e.eval.outcome env = e.eval.outcome env' ∧ e.events env = e.events env' ∧
    (∀ name, (env.bindings.get? name = env'.bindings.get? name ∨
        ∃ value, .assigned name value ∈ e.events env) →
      (e.eval.after env).bindings.get? name = (e.eval.after env').bindings.get? name) ∧
    ∀ name f start combine lower upper body, f.rule = .range start combine →
      (call name f [lower, upper, body]).eval =
        (lower.eval >>= fun first => upper.eval >>= loop start combine body first) ∧
      ∀ first last, (loop start combine body first last).Hygienic := by
  obtain ⟨houtcome, hevents, hafter⟩ := e.eval_agree hrandom henv henv' hagree
  refine ⟨houtcome, hevents, hafter, ?_⟩
  intro name f start combine lower upper body hrule
  exact ⟨eval_range hrule name lower upper body, hygienic_loop start combine body⟩

theorem eval_congr_loopVariable :
    let e : Expr :=
      call "sum" .sum [num (.ofInt 1), num (.ofInt 2), binary .mul (var "i") (var "x")]
    let env : Environment := ⟨Bindings.empty.insert "x" (num (.ofInt 3)), default⟩
    let env' : Environment := ⟨env.bindings.insert "i" (num (.ofInt 5)), ⟨fun n => .ofNat n, 1⟩⟩
    e.freeVariables = ["x"] ∧ .random ∉ e.functions ∧ env.bindings.Literal ∧
      env'.bindings.Literal ∧ env.AgreeOn e.freeVariables env' ∧
      e.eval.outcome env = .ok (.ofInt 9) ∧ e.eval.outcome env' = .ok (.ofInt 9) := by
  intro e env env'
  have hnames : e.freeVariables = ["x"] := rfl
  have hrandom : .random ∉ e.functions := by decide
  have henv : env.bindings.Literal := Bindings.literal_empty.insert _ _
  have henv' : env'.bindings.Literal := henv.insert _ _
  have hagree : env.AgreeOn e.freeVariables env' := by simp [Environment.AgreeOn, hnames, env']
  have hvalue : e.eval.outcome env = .ok (.ofInt 9) := by rfl
  have h := (eval_congr e hrandom henv henv' hagree).1
  exact ⟨hnames, hrandom, henv, henv', hagree, hvalue, h.symm.trans hvalue⟩

end Expr

end Reckon
