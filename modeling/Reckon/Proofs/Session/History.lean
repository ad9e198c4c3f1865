import Mathlib.Data.List.Induction
import Reckon.Proofs.Expr.RoundTrip
import Reckon.Proofs.Session.Effect

/-!
# Sessions over time

What is known of a session after any texts were evaluated in it, whether they were expressions and
whether their evaluation succeeded. The names that stand for constants and functions are never
bound, because the reader makes no variable of them and only variables are assigned. `Ans` is bound
from the first time on that something gives it a value.

Results:
* `Parsed.targets_free`: an assignment is made to a name that stands for nothing else.
* `hasLast_evaluateAll`: when `Ans` is bound.
* `evaluateAll_invariant`: all of it together, for every sequence of texts.
-/

namespace Reckon

/-! ## Names that may be bound -/

/-- Only names that stand for neither a constant nor a function are bound. -/
def Bindings.Free (b : Bindings) : Prop :=
  ∀ name tree, b.get? name = some tree → Name.meaning name = .free

theorem Bindings.Free.insert {b : Bindings} (hb : b.Free) {name : String}
    (h : Name.meaning name = .free) (tree : Expr) : (b.insert name tree).Free := by
  intro other t ht
  rw [get?_insert] at ht
  by_cases ho : other = name
  · exact ho ▸ h
  · exact hb other t (by simpa [ho] using ht)

theorem Bindings.get?_insert_self (b : Bindings) (name : String) (tree : Expr) :
    (b.insert name tree).get? name = some tree := by
  simp

theorem Bindings.insert_insert (b : Bindings) (name : String) (tree tree' : Expr) :
    (b.insert name tree).insert name tree' = b.insert name tree' := by
  simp [insert, erase, List.filter_filter]

namespace Name

theorem meaning_eq_free {name : String} (h : meaning name = .free) :
    constant? name = none ∧ ∀ f : Builtin, name ∉ f.names := by
  unfold meaning at h
  split at h
  · cases h
  next hc =>
    split at h
    · cases h
    next hf =>
      refine ⟨hc, fun f hname => ?_⟩
      have hnot := List.find?_eq_none.mp hf f f.mem_all
      exact hnot (List.contains_iff_mem.mpr hname)

theorem meaning_of_constant? {name : String} {value : Decimal} (h : constant? name = some value) :
    meaning name = .constant value := by
  rw [meaning, h]

end Name

/-- The names that the arguments of a call contribute are among theirs. -/
theorem Builtin.mem_namesOf {f : Builtin} {name : String} {arguments : List (List String)}
    (h : name ∈ f.namesOf arguments) : ∃ names ∈ arguments, name ∈ names := by
  unfold namesOf at h
  split at h
  · next lower upper body _ =>
    rw [List.mem_append, List.mem_append, List.mem_filter] at h
    rcases h with (h | h) | ⟨h, -⟩
    · exact ⟨lower, by simp, h⟩
    · exact ⟨upper, by simp, h⟩
    · exact ⟨body, by simp, h⟩
  · exact List.mem_flatten.mp h

namespace Expr

/-- The targets in the tree of a text are variables. -/
theorem Parsed.targets_free {e : Expr} (h : Parsed e) :
    ∀ name ∈ e.targets, Name.meaning name = .free := by
  induction h with
  | num | var => simp [targets]
  | unary _ ih => simpa [targets] using ih
  | binary _ _ iha ihb =>
    intro name hname
    rw [targets, List.mem_append] at hname
    exact hname.elim (iha name) (ihb name)
  | @assign a b ha _ iha ihb =>
    intro name hname
    cases ha with
    | var _ hm =>
      rw [targets, List.mem_cons] at hname
      rcases hname with rfl | hname
      · exact hm
      · exact ihb name hname
    | _ =>
      rw [targets, List.mem_append] at hname
      · exact hname.elim (iha name) (ihb name)
      · simp
  | call _ _ _ ih =>
    intro name hname
    rw [targets, targetsAll_eq_map] at hname
    obtain ⟨names, hnames, hname⟩ := Builtin.mem_namesOf hname
    obtain ⟨a, ha, rfl⟩ := List.mem_map.mp hnames
    exact ih a ha name hname

/-- Evaluating the tree of a text binds no name of a constant or a function. -/
theorem Parsed.free_after {e : Expr} (h : Parsed e) {env : Environment}
    (hliteral : env.bindings.Literal) (hfree : env.bindings.Free) :
    (e.eval.after env).bindings.Free := by
  intro name tree hget
  by_cases htarget : name ∈ e.targets
  · exact h.targets_free name htarget
  · rw [get?_after_of_not_mem hliteral htarget] at hget
    exact hfree name tree hget

/-- A name typed on its own. -/
theorem parse_identifier {name : String} (hi : IsIdentifier name) {e : Expr}
    (h : Derives .operand [.identifier name] e) : parse name = .ok e := by
  have hscan := Scans.identifier hi ends_nil scans_nil 0
  rw [List.append_nil] at hscan
  exact parse_of_scan hscan (ofTokens_iff.mpr (h.of_rank_le (Nat.zero_le _)))

end Expr

theorem isIdentifier_of_constant? {name : String} {value : Decimal}
    (h : Name.constant? name = some value) : IsIdentifier name := by
  have hall : ∀ c ∈ Name.constants, IsIdentifier c.1 := by
    simp only [Name.constants, List.mem_cons, List.not_mem_nil, or_false]
    rintro c (rfl | rfl | rfl)
    · exact .inl (Lexeme.matches_name_of_all (by decide +kernel) (by decide +kernel))
    · exact .inl (Lexeme.matches_name_of_all (by decide +kernel) (by decide +kernel))
    · exact .inr (.letter (.inl (by decide)))
  obtain ⟨before, behind, hsplit, -⟩ := List.lookup_eq_some_iff.mp h
  exact hall (name, value) (by rw [hsplit]; simp)

/-- An assignment in a record is the last one to its variable or is followed by another. -/
theorem lastAssigned?_isSome {name : String} {value : Decimal} {events : List Event}
    (h : .assigned name value ∈ events) : ∃ v, lastAssigned? name events = some v := by
  rw [← Option.isSome_iff_exists, lastAssigned?, List.findSome?_isSome_iff]
  exact ⟨_, List.mem_reverse.mpr h, by simp [Event.value?]⟩

namespace Session

/-! ## Sequences of texts -/

variable {s : Session} {text : String}

/-- The session after the evaluation of several texts, one after the other. -/
def evaluateAll (s : Session) (texts : List String) : Session :=
  texts.foldl (fun s text => (s.evaluate text).2) s

theorem evaluateAll_append_singleton (s : Session) (texts : List String) (text : String) :
    s.evaluateAll (texts ++ [text]) = ((s.evaluateAll texts).evaluate text).2 := by
  rw [evaluateAll, List.foldl_append]
  rfl

theorem reachable_evaluateAll (random : RandomSource) (texts : List String) :
    ((new random).evaluateAll texts).Reachable := by
  induction texts using List.reverseRecOn with
  | nil => exact .new random
  | append_singleton texts text ih =>
    rw [evaluateAll_append_singleton]
    exact ih.evaluate text

/-! ## Bound names -/

/-- Only names that stand for nothing else are bound in a session. -/
theorem Reachable.free (hs : s.Reachable) : s.environment.bindings.Free := by
  induction hs with
  | new random =>
    intro name tree h
    cases h
  | @evaluate s hs text ih =>
    cases h : Expr.parse text with
    | error error => rwa [evaluate_of_unreadable h]
    | ok e =>
      have hafter := (Expr.parsed_of_parse h).free_after hs.literal ih
      cases hrun : e.eval s.environment with
      | error error env =>
        rwa [evaluate_of_error h hrun, ← (Evaluation.run_eq_error.mp hrun).2]
      | ok value env =>
        rw [evaluate_of_ok h hrun, ← (Evaluation.run_eq_ok.mp hrun).2]
        exact hafter.insert rfl (.num value)

/-- A constant typed on its own. -/
theorem evaluate_constant {name : String} {value : Decimal} (h : Name.constant? name = some value)
    (s : Session) :
    ∃ s₁, s.evaluate name = (.ok value.render, s₁) ∧ s₁.valueOf? lastValue = some value := by
  have hparse : Expr.parse name = .ok (.num value) :=
    Expr.parse_identifier (isIdentifier_of_constant? h) (.constant (Name.meaning_of_constant? h))
  have hrun : (Expr.num value).eval s.environment = .ok value s.environment := by
    rw [Expr.eval_num]
    rfl
  exact ⟨_, evaluate_of_ok hparse hrun, by simp [valueOf?, Bindings.number?]⟩

/-! ## The last value -/

/-- The text has a value in the session. -/
def Succeeds (s : Session) (text : String) : Prop := ∃ t, (s.evaluate text).1 = .ok t

/-- The evaluation of the text gives `Ans` a value: it succeeds, or it completes an assignment to
`Ans`. -/
def BindsLast (s : Session) (text : String) : Prop :=
  s.Succeeds text ∨
    ∃ e value, Expr.parse text = .ok e ∧ .assigned lastValue value ∈ e.events s.environment

/-- Whether `Ans` is bound. -/
def HasLast (s : Session) : Prop := ∃ tree, s.environment.bindings.get? lastValue = some tree

/-- `Ans` is bound after an evaluation just if it was before or the evaluation gives it a value. -/
theorem hasLast_evaluate (hs : s.environment.bindings.Literal) (text : String) :
    (s.evaluate text).2.HasLast ↔ s.HasLast ∨ s.BindsLast text := by
  cases h : Expr.parse text with
  | error error => simp [BindsLast, Succeeds, evaluate_of_unreadable h, h]
  | ok e =>
    cases hrun : e.eval s.environment with
    | ok value env => simp [BindsLast, Succeeds, HasLast, evaluate_of_ok h hrun]
    | error error env =>
      have hfaithful := e.recorded_faithful s.environment hs lastValue
      rw [Expr.evaluation_recorded, (Evaluation.run_eq_error.mp hrun).2] at hfaithful
      have hevents : (∃ v, lastAssigned? lastValue (e.events s.environment) = some v) ↔
          ∃ v, .assigned lastValue v ∈ e.events s.environment :=
        ⟨fun ⟨v, hv⟩ => ⟨v, lastAssigned?_eq_some hv⟩, fun ⟨_, hv⟩ => lastAssigned?_isSome hv⟩
      have hbinds : s.BindsLast text ↔ ∃ v, .assigned lastValue v ∈ e.events s.environment := by
        simp [BindsLast, Succeeds, evaluate_of_error h hrun, h]
      rw [hbinds, ← hevents, HasLast, HasLast, evaluate_of_error h hrun, hfaithful]
      show (∃ tree, ((lastAssigned? lastValue (e.events s.environment)).map Expr.num).or _ = _) ↔ _
      cases lastAssigned? lastValue (e.events s.environment) <;> simp

/-- `Ans` is bound just if one of the texts so far gave it a value. -/
theorem hasLast_evaluateAll (random : RandomSource) (texts : List String) :
    ((new random).evaluateAll texts).HasLast ↔ ∃ before text behind,
      texts = before ++ text :: behind ∧ ((new random).evaluateAll before).BindsLast text := by
  induction texts using List.reverseRecOn with
  | nil => simp [HasLast, evaluateAll, new]
  | append_singleton texts text ih =>
    rw [evaluateAll_append_singleton,
      hasLast_evaluate (reachable_evaluateAll random texts).literal, ih]
    constructor
    · rintro (⟨before, t, behind, rfl, h⟩ | h)
      · exact ⟨before, t, behind ++ [text], by simp, h⟩
      · exact ⟨texts, text, [], rfl, h⟩
    · rintro ⟨before, t, behind, hsplit, h⟩
      rcases List.eq_nil_or_concat' behind with rfl | ⟨others, last, rfl⟩
      · obtain ⟨rfl, ht⟩ := List.append_inj' hsplit rfl
        cases ht
        exact .inr h
      · rw [← List.cons_append, ← List.append_assoc] at hsplit
        obtain ⟨rfl, -⟩ := List.append_inj' hsplit rfl
        exact .inl ⟨before, t, others, rfl, h⟩

/-- `Ans` typed right after a value gives it again and changes nothing. -/
theorem evaluate_lastValue {s₁ : Session} {t : String} (h : s.evaluate text = (.ok t, s₁)) :
    s₁.evaluate lastValue = (.ok t, s₁) := by
  have hi : IsIdentifier lastValue :=
    .inl (Lexeme.matches_name_of_all (by decide +kernel) (by decide +kernel))
  have hlast : Expr.parse lastValue = .ok (.var lastValue) :=
    Expr.parse_identifier hi (.free rfl)
  cases hparse : Expr.parse text with
  | error error =>
    rw [evaluate_of_unreadable hparse] at h
    cases h
  | ok e =>
    cases hrun : e.eval s.environment with
    | error error env =>
      rw [evaluate_of_error hparse hrun] at h
      cases h
    | ok value env =>
      rw [evaluate_of_ok hparse hrun] at h
      cases h
      rw [evaluate_of_ok hlast (Expr.eval_var_of_num (Bindings.get?_insert_self _ _ _)),
        Bindings.insert_insert]

/-! ## The invariant -/

/-- What is known of a session in which these texts were evaluated. -/
structure Invariant (random : RandomSource) (texts : List String) (s : Session) : Prop where
  /-- All variables are bound to numbers. -/
  literal : s.environment.bindings.Literal
  /-- No name of a constant or of a function is bound. -/
  free : ∀ name tree, s.environment.bindings.get? name = some tree →
    Name.constant? name = none ∧ ∀ f : Builtin, name ∉ f.names
  /-- The name of a constant, typed on its own, has the value of the constant. -/
  constant : ∀ name value, Name.constant? name = some value →
    ∃ s₁, s.evaluate name = (.ok value.render, s₁) ∧ s₁.valueOf? lastValue = some value
  /-- `Ans` is bound just if one of the texts had a value or completed an assignment to `Ans`. -/
  last : s.HasLast ↔ ∃ before text behind, texts = before ++ text :: behind ∧
    ((new random).evaluateAll before).BindsLast text
  /-- Once a text has a value, `Ans` has this value and reading it changes nothing. -/
  again : ∀ text t s₁, s.evaluate text = (.ok t, s₁) → s₁.evaluate lastValue = (.ok t, s₁)

/-- **Session invariant**, after any texts. -/
theorem evaluateAll_invariant (random : RandomSource) (texts : List String) :
    Invariant random texts ((new random).evaluateAll texts) where
  literal := (reachable_evaluateAll random texts).literal
  free name tree h := Name.meaning_eq_free ((reachable_evaluateAll random texts).free name tree h)
  constant _ _ h := evaluate_constant h _
  last := hasLast_evaluateAll random texts
  again _ _ _ h := evaluate_lastValue h

end Session

end Reckon
