import Reckon.Proofs.Evaluation.Sequence

/-!
# What an evaluation may change

An evaluation changes the bindings by the assignments that it completes and by nothing else: the
record tells all of them, in the order in which they were made, whether the evaluation succeeds or
fails and however deep inside ranges it fails. The variables they are made to are those that the
tree names as targets. Both hold as long as all variables are bound to numbers, since a tree that a
variable is bound to could assign as well.

Results:
* `recorded_faithful`: the last recorded assignment of each variable is what it is bound to
  afterwards; without one it is bound as before.
* `recorded_assignsOnly`: only targets are assigned.
* `get?_after_of_not_mem`, `exists_of_get?_after_ne`: so a variable that is no target is bound as
  before, and one that is bound to something else holds what was assigned to it last.
-/

namespace Reckon

/-! ## Literal bindings -/

namespace Bindings

/-- All variables are bound to numbers, as assignments bind them. -/
def Literal (b : Bindings) : Prop :=
  ∀ name tree, b.get? name = some tree → ∃ value, tree = .num value

theorem literal_empty : empty.Literal := by
  intro name tree h
  cases h

theorem Literal.erase {b : Bindings} (hb : b.Literal) (name : String) : (b.erase name).Literal := by
  intro other tree h
  rw [get?_erase] at h
  by_cases ho : other = name
  · simp [ho] at h
  · exact hb other tree (by simpa [ho] using h)

theorem Literal.insert {b : Bindings} (hb : b.Literal) (name : String) (value : Decimal) :
    (b.insert name (.num value)).Literal := by
  intro other tree h
  rw [get?_insert] at h
  by_cases ho : other = name
  · exact ⟨value, by simpa [ho] using h.symm⟩
  · exact hb other tree (by simpa [ho] using h)

end Bindings

namespace Evaluation

variable {name : String} {env : Environment}

theorem lookup_of_none (h : env.bindings.get? name = none) :
    lookup name env = .error (.unknownVariable name) env := by
  have hget : (get : Evaluation Environment) env = .ok env env := rfl
  rw [lookup, bind_of_ok hget]
  simp only [h]
  rfl

theorem lookup_of_some {tree : Expr} (h : env.bindings.get? name = some tree) :
    lookup name env = .ok tree env := by
  have hget : (get : Evaluation Environment) env = .ok env env := rfl
  rw [lookup, bind_of_ok hget]
  simp only [h]
  rfl

end Evaluation

namespace Expr

theorem eval_var (name : String) :
    (var name).eval =
      Evaluation.lookup name >>= .ofBinding (fun _ tree => evalTo (followDepth - 1) tree) name := by
  rw [eval_eq_evalWith, evalWith]

theorem eval_var_of_none {name : String} {env : Environment}
    (h : env.bindings.get? name = none) :
    (var name).eval env = .error (.unknownVariable name) env := by
  rw [eval_var, Evaluation.bind_of_error (Evaluation.lookup_of_none h)]

/-- A variable that is bound to a number has its value at every depth. -/
theorem evalTo_var_of_num {name : String} {value : Decimal} {env : Environment}
    (h : env.bindings.get? name = some (.num value)) (depth : Nat) :
    (var name).evalTo depth env = .ok value env := by
  obtain ⟨follow, hfollow⟩ := exists_evalWith depth
  rw [hfollow, evalWith, Evaluation.bind_of_ok (Evaluation.lookup_of_some h)]
  rfl

theorem eval_var_of_num {name : String} {value : Decimal} {env : Environment}
    (h : env.bindings.get? name = some (.num value)) : (var name).eval env = .ok value env :=
  evalTo_var_of_num h followDepth

theorem eval_var_eq_ok {name : String} {env env₁ : Environment} {value : Decimal}
    (henv : env.bindings.Literal) (h : (var name).eval env = .ok value env₁) :
    env.bindings.number? name = some value ∧ env₁ = env := by
  cases hget : env.bindings.get? name with
  | none =>
    rw [eval_var_of_none hget] at h
    cases h
  | some tree =>
    obtain ⟨v, rfl⟩ := henv name tree hget
    rw [eval_var_of_num hget] at h
    cases h
    exact ⟨by simp [Bindings.number?, hget], rfl⟩

/-- With literal bindings reading a variable changes nothing. -/
theorem after_var {env : Environment} (henv : env.bindings.Literal) (name : String) :
    (var name).eval.after env = env := by
  cases h : env.bindings.get? name with
  | none => rw [Evaluation.after, eval_var_of_none h]
  | some tree =>
    obtain ⟨value, rfl⟩ := henv name tree h
    rw [Evaluation.after, eval_var_of_num h]

end Expr

/-! ## The record tells all changes -/

/-- The last recorded assignment of each variable is what it is bound to afterwards; without one it
is bound as before. -/
def Recorded.Faithful {α : Type} (m : Recorded α) : Prop :=
  ∀ env, env.bindings.Literal → ∀ name,
    (m.evaluation.after env).bindings.get? name =
      ((lastAssigned? name (m.events env)).map Expr.num).or (env.bindings.get? name)

namespace Recorded

variable {α β : Type}

theorem Faithful.literal {m : Recorded α} (hm : m.Faithful) {env : Environment}
    (henv : env.bindings.Literal) : (m.evaluation.after env).bindings.Literal := by
  intro name tree h
  rw [hm env henv name] at h
  cases hlast : lastAssigned? name (m.events env) with
  | none => exact henv name tree (by simpa [hlast] using h)
  | some value => exact ⟨value, by simpa [hlast] using h.symm⟩

/-- A computation that leaves the bindings alone needs no record. -/
theorem faithful_of_bindings_eq {m : Recorded α}
    (hevents : ∀ env name, lastAssigned? name (m.events env) = none)
    (hm : ∀ env, env.bindings.Literal → (m.evaluation.after env).bindings = env.bindings) :
    m.Faithful := by
  intro env henv name
  rw [hm env henv, hevents]
  simp

theorem faithful_bind {m : Recorded α} {f : α → Recorded β} (hm : m.Faithful)
    (hf : ∀ a, (f a).Faithful) : (m >>= f).Faithful := by
  intro env henv name
  have hbefore := hm env henv name
  cases hrun : m.evaluation env with
  | error e env₁ =>
    obtain ⟨-, rfl⟩ := Evaluation.run_eq_error.mp hrun
    rw [events_bind_of_error hrun, evaluation_bind, Evaluation.after_bind_of_error hrun, hbefore]
  | ok a env₁ =>
    obtain ⟨-, rfl⟩ := Evaluation.run_eq_ok.mp hrun
    -- what the second part assigns hides what the first one did
    rw [events_bind_of_ok hrun, evaluation_bind, Evaluation.after_bind_of_ok hrun,
      hf a _ (hm.literal henv), hbefore, lastAssigned?_append]
    cases lastAssigned? name ((f a).events (m.evaluation.after env)) <;> simp

theorem sequential_faithful : Sequential fun _ m => m.Faithful where
  pure _ := faithful_of_bindings_eq (fun _ _ => rfl) fun _ _ => rfl
  fail _ := faithful_of_bindings_eq (fun _ _ => rfl) fun _ _ => rfl
  bind := faithful_bind

theorem faithful_note_applied (op : BinaryOp) (a b : Decimal) :
    (note (.applied op a b)).Faithful :=
  faithful_of_bindings_eq (fun _ _ => lastAssigned?_applied _ op a b) fun _ _ => rfl

theorem faithful_assign (name : String) (value : Decimal) : (assign name value).Faithful := by
  intro env _ other
  by_cases h : other = name
  · subst h
    simp
  · have : name ≠ other := fun heq => h heq.symm
    simp [h, this]

/-- However its body ends, a computation with a variable of its own leaves the variable as it
was. -/
theorem faithful_withLocal (name : String) {body : Recorded α} (hbody : body.Faithful) :
    (withLocal name body).Faithful := by
  intro env henv other
  have hinside := hbody { env with bindings := env.bindings.erase name } (henv.erase name) other
  rw [evaluation_withLocal, Evaluation.after_withLocal, Bindings.get?_restore, events_withLocal,
    lastAssigned?_filter]
  by_cases h : other = name
  · simp [h]
  · rw [if_neg h, if_neg h, hinside, Bindings.get?_erase, if_neg h]

theorem scoped_faithful : Scoped fun _ _ m => m.Faithful where
  sequential _ := sequential_faithful
  mono hm _ := hm
  assign value _ := faithful_assign _ value
  withLocal := faithful_withLocal _

end Recorded

/-- The last recorded assignment of each variable is what it is bound to after the evaluation;
without one it is bound as before. -/
theorem Expr.recorded_faithful (e : Expr) : e.recorded.Faithful := by
  have hseq := Recorded.sequential_faithful
  induction e using Expr.induction with
  | num value =>
    rw [recorded]
    exact hseq.pure value
  | var name =>
    rw [recorded]
    refine Recorded.faithful_of_bindings_eq (fun _ _ => rfl) fun env henv => ?_
    rw [Recorded.evaluation_silent, after_var henv]
  | unary op operand ih =>
    rw [recorded]
    exact hseq.bind ih fun a => hseq.lift _
  | binary op left right ihl ihr =>
    rw [recorded]
    refine hseq.bind ihl fun a => hseq.bind ihr fun b => ?_
    exact hseq.bind (Recorded.faithful_note_applied op a b) fun _ => hseq.lift _
  | assign target value _ ih =>
    rw [recorded]
    exact hseq.toTarget ih fun name _ => Recorded.faithful_assign name
  | call name f arguments ih =>
    refine Recorded.scoped_faithful.call name (fun _ => []) (fun _ _ => ?_) ih
    refine Recorded.faithful_of_bindings_eq (fun _ _ => rfl) fun env _ => ?_
    rw [Recorded.evaluation_silent, Evaluation.after_draw]

namespace Expr

variable {e : Expr} {env env₁ : Environment}

/-- An evaluation leaves literal bindings behind, whether it succeeds or fails. -/
theorem literal_after (henv : env.bindings.Literal) : (e.eval.after env).bindings.Literal := by
  have hafter := e.recorded_faithful.literal henv
  rwa [evaluation_recorded] at hafter

theorem literal_of_eval_ok {value : Decimal} (henv : env.bindings.Literal)
    (h : e.eval env = .ok value env₁) : env₁.bindings.Literal :=
  (Evaluation.run_eq_ok.mp h).2 ▸ literal_after henv

end Expr

/-! ## Only targets are assigned -/

namespace Expr

mutual

/-- The variables that a tree assigns to. -/
def targets : Expr → List String
  | num _ => []
  | var _ => []
  | unary _ operand => operand.targets
  | binary _ left right => left.targets ++ right.targets
  | assign (var name) value => name :: value.targets
  | assign target value => target.targets ++ value.targets
  | call _ f arguments => f.namesOf (targetsAll arguments)

/-- The variables that each of several trees assigns to. -/
def targetsAll : List Expr → List (List String)
  | [] => []
  | e :: rest => e.targets :: targetsAll rest

end

theorem targetsAll_eq_map (arguments : List Expr) :
    targetsAll arguments = arguments.map targets := by
  induction arguments with
  | nil => rfl
  | cons first rest ih => simp [targetsAll, ih]

end Expr

namespace Recorded

variable {α β : Type}

/-- Only these variables are assigned. -/
def AssignsOnly (names : List String) (m : Recorded α) : Prop :=
  ∀ env name value, .assigned name value ∈ m.events env → name ∈ names

theorem AssignsOnly.mono {names more : List String} {m : Recorded α} (hm : m.AssignsOnly names)
    (h : ∀ name ∈ names, name ∈ more) : m.AssignsOnly more :=
  fun env name value hevent => h name (hm env name value hevent)

theorem assignsOnly_bind {names : List String} {m : Recorded α} {f : α → Recorded β}
    (hm : m.AssignsOnly names) (hf : ∀ a, (f a).AssignsOnly names) :
    (m >>= f).AssignsOnly names := by
  intro env name value hevent
  cases hrun : m.evaluation env with
  | error e env₁ =>
    rw [events_bind_of_error hrun] at hevent
    exact hm env name value hevent
  | ok a env₁ =>
    rw [events_bind_of_ok hrun] at hevent
    rcases List.mem_append.mp hevent with hevent | hevent
    · exact hm env name value hevent
    · exact hf a env₁ name value hevent

theorem assignsOnly_silent (names : List String) (m : Evaluation α) :
    (silent m).AssignsOnly names := by
  intro env name value hevent
  cases hevent

theorem sequential_assignsOnly (names : List String) :
    Sequential fun _ m => m.AssignsOnly names where
  pure a := assignsOnly_silent names (pure a)
  fail e := assignsOnly_silent names (throw e)
  bind := assignsOnly_bind

theorem assignsOnly_assign {names : List String} {name : String} (value : Decimal)
    (h : name ∈ names) : (assign name value).AssignsOnly names := by
  intro env other v hevent
  rw [events_assign, List.mem_singleton] at hevent
  cases hevent
  exact h

theorem assignsOnly_note_applied (names : List String) (op : BinaryOp) (a b : Decimal) :
    (note (.applied op a b)).AssignsOnly names := by
  intro env name value hevent
  simp at hevent

theorem assignsOnly_withLocal {names : List String} {own : String} {body : Recorded α}
    (hbody : body.AssignsOnly (own :: names)) : (withLocal own body).AssignsOnly names := by
  intro env name value hevent
  rw [events_withLocal, List.mem_filter] at hevent
  obtain ⟨hevent, hown⟩ := hevent
  have hne : name ≠ own := by
    rintro rfl
    simp [Event.value?] at hown
  simpa [hne] using hbody _ name value hevent

theorem scoped_assignsOnly : Scoped fun names _ m => m.AssignsOnly names where
  sequential := sequential_assignsOnly
  mono := AssignsOnly.mono
  assign := assignsOnly_assign
  withLocal := assignsOnly_withLocal

end Recorded

/-- Only targets are assigned. -/
theorem Expr.recorded_assignsOnly (e : Expr) : e.recorded.AssignsOnly e.targets := by
  induction e using Expr.induction with
  | num value =>
    rw [recorded]
    exact Recorded.assignsOnly_silent _ _
  | var name =>
    rw [recorded]
    exact Recorded.assignsOnly_silent _ _
  | unary op operand ih =>
    rw [recorded, targets]
    exact Recorded.assignsOnly_bind ih fun a => Recorded.assignsOnly_silent _ _
  | binary op left right ihl ihr =>
    have hseq := Recorded.sequential_assignsOnly (left.targets ++ right.targets)
    rw [recorded, targets]
    refine hseq.bind (ihl.mono (by simp +contextual)) fun a =>
      hseq.bind (ihr.mono (by simp +contextual)) fun b => ?_
    exact hseq.bind (Recorded.assignsOnly_note_applied _ op a b) fun _ => hseq.lift _
  | assign target value _ ih =>
    rw [recorded]
    refine (Recorded.sequential_assignsOnly _).toTarget (ih.mono fun name hname => ?_) ?_
    · cases target <;> simp [targets, hname]
    · rintro name rfl v
      exact Recorded.assignsOnly_assign v (by simp [targets])
  | call name f arguments ih =>
    rw [targets, targetsAll_eq_map]
    exact Recorded.scoped_assignsOnly.call name targets
      (fun _ _ => Recorded.assignsOnly_silent _ _) ih

namespace Expr

variable {e : Expr} {env : Environment} {name : String}

/-- A variable that is no target is bound as before. -/
theorem get?_after_of_not_mem (henv : env.bindings.Literal) (h : name ∉ e.targets) :
    (e.eval.after env).bindings.get? name = env.bindings.get? name := by
  have hfaithful := e.recorded_faithful env henv name
  rw [evaluation_recorded] at hfaithful
  cases hlast : lastAssigned? name (e.recorded.events env) with
  | none => simpa [hlast] using hfaithful
  | some value =>
    have hevent := lastAssigned?_eq_some hlast
    exact absurd (e.recorded_assignsOnly env name value hevent) h

/-- A variable that is bound to something else holds the number that was assigned to it last. -/
theorem exists_of_get?_after_ne (henv : env.bindings.Literal)
    (h : (e.eval.after env).bindings.get? name ≠ env.bindings.get? name) :
    ∃ value, lastAssigned? name (e.events env) = some value ∧
      (e.eval.after env).bindings.get? name = some (.num value) := by
  have hfaithful := e.recorded_faithful env henv name
  rw [evaluation_recorded] at hfaithful
  cases hlast : lastAssigned? name (e.recorded.events env) with
  | none => exact absurd (by simpa [hlast] using hfaithful) h
  | some value => exact ⟨value, hlast, by simpa [hlast] using hfaithful⟩

end Expr

end Reckon
