import Reckon.Expr.Reader
import Reckon.Proofs.Except
import Reckon.Proofs.Expr.Grammar

/-!
# The descent through the levels

`Reads level used next outcome` says that the descent, asked for an expression of the level, uses up
the tokens `used` and then has the outcome: a tree, or what was needed where it stopped. It has seen
one token more, `next`, or the end of the text if there is none. There is a rule for each way
through a level and no bound on the depth: a derivation is a run of the descent that ends.

Every level is entered either with fewer tokens than the level before it or, with as many, from the
next looser level. So the pair of the number of tokens and the place of the level grows smaller
lexicographically, and the descent ends on every list of tokens.

Results:
* `Reads.derives`, `reads_of_derives`: the trees that the descent finds are those of the grammar.
* `readable`: the descent ends on every list of tokens.
-/

namespace Reckon.Expr

/-- Whether the token is an operator that stands in front of operands of the level. -/
def Leading (level : Level) (t : Option Token) : Prop :=
  ∃ s, t = some (.symbol s) ∧ level.leading? s ≠ none

/-- Whether the token goes on with an expression of the level behind its first operand. -/
def GoesOn (level : Level) (t : Option Token) : Prop :=
  ∃ s, t = some (.symbol s) ∧ s.level? = some level

/-- Whether the token begins an operand. -/
def BeginsOperand : Option Token → Prop
  | some (.number _) | some (.identifier _) | some (.symbol .leftParen) => True
  | _ => False

/-- What comes next in front of the tokens `used`, with `next` behind them. -/
def ahead (used : List Token) (next : Option Token) : Option Token := used.head?.or next

theorem head?_append (used rest : List Token) : (used ++ rest).head? = ahead used rest.head? :=
  List.head?_append

mutual

/-- The descent from a level: the tokens it uses up, the one behind them, and the outcome. -/
inductive Reads : Level → List Token → Option Token → Except Needed Expr → Prop
  /-- The next level fails. -/
  | fails {level : Level} {used : List Token} {next : Option Token} {needed : Needed}
      (hl : level ≠ .operand) (hlead : ¬ Leading level (ahead used next))
      (h : Reads level.tighter used next (.error needed)) : Reads level used next (.error needed)
  /-- The operator of the level is left out. -/
  | alone {level : Level} {used : List Token} {next : Option Token} {a : Expr}
      (hl : level ∈ Level.optional) (hlead : ¬ Leading level (ahead used next))
      (hnext : ¬ GoesOn level next) (h : Reads level.tighter used next (.ok a)) :
      Reads level used next (.ok a)
  | assign {left right : List Token} {next : Option Token} {a : Expr} {outcome : Except Needed Expr}
      (hl : Reads .disjunction left (some (.symbol .equals)) (.ok a))
      (hr : Reads .disjunction right next outcome) :
      Reads .assignment (left ++ .symbol .equals :: right) next (outcome.map (.assign a))
  | chain {level : Level} {first more : List Token} {next : Option Token} {a : Expr}
      {outcome : Except Needed Expr} (hl : level ∈ Level.chained)
      (h : Reads level.tighter first (ahead more next) (.ok a))
      (hc : ReadsChain level a more next outcome) : Reads level (first ++ more) next outcome
  | lead {level : Level} {s : Symbol} {build : Expr → Expr} {used : List Token}
      {next : Option Token} {outcome : Except Needed Expr} (hs : level.leading? s = some build)
      (h : Reads level used next outcome) :
      Reads level (.symbol s :: used) next (outcome.map build)
  | power {base exponent : List Token} {next : Option Token} {a : Expr}
      {outcome : Except Needed Expr} (hb : Reads .factorial base (some (.symbol .caret)) (.ok a))
      (he : Reads .power exponent next outcome) :
      Reads .power (base ++ .symbol .caret :: exponent) next (outcome.map (.binary .pow a))
  | factorial {used : List Token} {next : Option Token} {a : Expr}
      (h : Reads .operand used (some (.symbol .bang)) (.ok a)) :
      Reads .factorial (used ++ [.symbol .bang]) next (.ok (.unary .factorial a))
  | number {value : Decimal} {next : Option Token} :
      Reads .operand [.number value] next (.ok (.num value))
  | constant {name : String} {value : Decimal} {next : Option Token}
      (hm : Name.meaning name = .constant value) :
      Reads .operand [.identifier name] next (.ok (.num value))
  | free {name : String} {next : Option Token} (hm : Name.meaning name = .free) :
      Reads .operand [.identifier name] next (.ok (.var name))
  | call {name : String} {f : Builtin} {used : List Token} {next : Option Token}
      {outcome : Except Needed (List Expr)} (hf : Name.meaning name = .function f)
      (ha : ReadsArguments used next outcome) :
      Reads .operand (.identifier name :: .symbol .leftParen :: used) next
        (outcome.map (.call name f))
  /-- The name of a function without arguments. -/
  | uncalled {name : String} {f : Builtin} {next : Option Token}
      (hf : Name.meaning name = .function f) (hnext : next ≠ some (.symbol .leftParen)) :
      Reads .operand [.identifier name] next (.error (.symbol .leftParen))
  | group {used : List Token} {next : Option Token} {a : Expr}
      (h : Reads .assignment used (some (.symbol .rightParen)) (.ok a)) :
      Reads .operand (.symbol .leftParen :: (used ++ [.symbol .rightParen])) next (.ok a)
  | groupFails {used : List Token} {next : Option Token} {needed : Needed}
      (h : Reads .assignment used next (.error needed)) :
      Reads .operand (.symbol .leftParen :: used) next (.error needed)
  | unclosed {used : List Token} {next : Option Token} {a : Expr}
      (h : Reads .assignment used next (.ok a)) (hnext : next ≠ some (.symbol .rightParen)) :
      Reads .operand (.symbol .leftParen :: used) next (.error (.symbol .rightParen))
  | missing {next : Option Token} (hnext : ¬ BeginsOperand next) :
      Reads .operand [] next (.error .operand)

/-- How the descent goes on with a chain that begins with a tree. -/
inductive ReadsChain : Level → Expr → List Token → Option Token → Except Needed Expr → Prop
  | finish {level : Level} {a : Expr} {next : Option Token} (hnext : ¬ GoesOn level next) :
      ReadsChain level a [] next (.ok a)
  | join {level : Level} {s : Symbol} {build : Expr → Expr → Expr} {right more : List Token}
      {next : Option Token} {a b : Expr} {outcome : Except Needed Expr}
      (hs : level.joining? s = some build)
      (hr : Reads level.tighter right (ahead more next) (.ok b))
      (hc : ReadsChain level (build a b) more next outcome) :
      ReadsChain level a (.symbol s :: (right ++ more)) next outcome
  | joinFails {level : Level} {s : Symbol} {build : Expr → Expr → Expr} {right : List Token}
      {next : Option Token} {a : Expr} {needed : Needed} (hs : level.joining? s = some build)
      (hr : Reads level.tighter right next (.error needed)) :
      ReadsChain level a (.symbol s :: right) next (.error needed)

/-- The descent into the arguments of a call, the closing parenthesis included. -/
inductive ReadsArguments : List Token → Option Token → Except Needed (List Expr) → Prop
  | none {next : Option Token} : ReadsArguments [.symbol .rightParen] next (.ok [])
  | some {used : List Token} {next : Option Token} {outcome : Except Needed (List Expr)}
      (hhead : ahead used next ≠ some (.symbol .rightParen)) (h : ReadsMore used next outcome) :
      ReadsArguments used next outcome

/-- The descent into at least one argument, the closing parenthesis included. -/
inductive ReadsMore : List Token → Option Token → Except Needed (List Expr) → Prop
  | last {used : List Token} {next : Option Token} {a : Expr}
      (h : Reads .assignment used (some (.symbol .rightParen)) (.ok a)) :
      ReadsMore (used ++ [.symbol .rightParen]) next (.ok [a])
  | more {first others : List Token} {next : Option Token} {a : Expr}
      {outcome : Except Needed (List Expr)}
      (h : Reads .assignment first (some (.symbol .comma)) (.ok a))
      (hm : ReadsMore others next outcome) :
      ReadsMore (first ++ .symbol .comma :: others) next (outcome.map (a :: ·))
  | fails {used : List Token} {next : Option Token} {needed : Needed}
      (h : Reads .assignment used next (.error needed)) : ReadsMore used next (.error needed)
  | unclosed {used : List Token} {next : Option Token} {a : Expr}
      (h : Reads .assignment used next (.ok a)) (hcomma : next ≠ some (.symbol .comma))
      (hclose : next ≠ some (.symbol .rightParen)) :
      ReadsMore used next (.error (.symbol .rightParen))

end

/-! ## The descent follows the grammar -/

mutual

/-- **A tree that the descent has found is the one of the grammar** for the tokens used up. -/
theorem Reads.derives {level : Level} {used : List Token} {next : Option Token}
    {outcome : Except Needed Expr} : Reads level used next outcome →
      ∀ {e : Expr}, outcome = .ok e → Derives level used e
  | .alone hl _ _ h, _, he => by
    cases he
    exact .pass hl (h.derives rfl)
  | .assign hl hr, _, he => by
    obtain ⟨b, hb, rfl⟩ := map_ok he
    exact .assign (hl.derives rfl) (hr.derives hb)
  | .chain hl h hc, _, he => .chain hl (h.derives rfl) (hc.chain he)
  | .lead hs h, _, he => by
    obtain ⟨a, ha, rfl⟩ := map_ok he
    exact .lead (leads_iff.mpr ⟨_, hs, rfl⟩) (h.derives ha)
  | .power hb he, _, hok => by
    obtain ⟨b, hexponent, rfl⟩ := map_ok hok
    exact .power (hb.derives rfl) (he.derives hexponent)
  | .factorial h, _, he => by
    cases he
    exact .factorial (h.derives rfl)
  | .number, _, he => by
    cases he
    exact .number
  | .constant hm, _, he => by
    cases he
    exact .constant hm
  | .free hm, _, he => by
    cases he
    exact .free hm
  | .call hf ha, _, he => by
    obtain ⟨es, hes, rfl⟩ := map_ok he
    obtain ⟨inner, rfl, hinner⟩ := ha.arguments hes
    exact .call hf hinner
  | .group h, _, he => by
    cases he
    exact .group (h.derives rfl)
  | .fails .., _, he | .uncalled .., _, he | .groupFails .., _, he | .unclosed .., _, he
  | .missing .., _, he => nomatch he

theorem ReadsChain.chain {level : Level} {a : Expr} {more : List Token} {next : Option Token}
    {outcome : Except Needed Expr} : ReadsChain level a more next outcome →
      ∀ {e : Expr}, outcome = .ok e → Chain level a more e
  | .finish _, _, he => by
    cases he
    exact .finish
  | .join hs hr hc, _, he => .join (joins_iff.mpr ⟨_, hs, rfl⟩) (hr.derives rfl) (hc.chain he)
  | .joinFails .., _, he => nomatch he

theorem ReadsArguments.arguments {used : List Token} {next : Option Token}
    {outcome : Except Needed (List Expr)} : ReadsArguments used next outcome →
      ∀ {es : List Expr}, outcome = .ok es →
        ∃ inner, used = inner ++ [.symbol .rightParen] ∧ Arguments inner es
  | .none, _, hes => by
    cases hes
    exact ⟨[], rfl, .none⟩
  | .some _ h, _, hes => by
    obtain ⟨inner, hused, -, hinner⟩ := h.arguments hes
    exact ⟨inner, hused, hinner⟩

theorem ReadsMore.arguments {used : List Token} {next : Option Token}
    {outcome : Except Needed (List Expr)} : ReadsMore used next outcome →
      ∀ {es : List Expr}, outcome = .ok es →
        ∃ inner, used = inner ++ [.symbol .rightParen] ∧ es ≠ [] ∧ Arguments inner es
  | .last h, _, hes => by
    cases hes
    exact ⟨_, rfl, List.cons_ne_nil _ _, .one (h.derives rfl)⟩
  | .more h hm, _, hes => by
    obtain ⟨as, has, rfl⟩ := map_ok hes
    obtain ⟨inner, rfl, hne, hinner⟩ := hm.arguments has
    exact ⟨_, by simp, List.cons_ne_nil _ _, .more (h.derives rfl) hne hinner⟩
  | .fails .., _, hes | .unclosed .., _, hes => nomatch hes

end

theorem ne_operand {level : Level} (h : level ∈ Level.chained ∨ level ∈ Level.optional) :
    level ≠ .operand := by
  rintro rfl
  exact absurd h (by decide)

/-- An expression of the next level begins with no operator of this one. -/
theorem not_leading_of_derives {level : Level} {used : List Token} {a : Expr}
    (hl : level ≠ .operand) (h : Derives level.tighter used a) (next : Option Token) :
    ¬ Leading level (ahead used next) := by
  rintro ⟨s, hs, hlead⟩
  obtain ⟨t, rest, rfl, -⟩ := h.head
  obtain rfl : t = .symbol s := Option.some.inj hs
  obtain ⟨build, hbuild⟩ := Option.ne_none_iff_exists'.mp hlead
  exact h.not_leads hl (leads_iff.mpr ⟨build, hbuild, rfl⟩ : Leads level s a (build a))

theorem readsArguments_of_more {tokens : List Token} {es : List Expr} (h : Arguments tokens es)
    {next : Option Token}
    (ih : es ≠ [] → ReadsMore (tokens ++ [.symbol .rightParen]) next (.ok es)) :
    ReadsArguments (tokens ++ [.symbol .rightParen]) next (.ok es) := by
  have hsome (hes : es ≠ []) (htokens : tokens ≠ []) :
      ReadsArguments (tokens ++ [.symbol .rightParen]) next (.ok es) := by
    refine .some ?_ (ih hes)
    obtain ⟨t, others, rfl⟩ := List.exists_cons_of_ne_nil htokens
    intro ht
    obtain rfl : t = .symbol .rightParen := Option.some.inj ht
    exact h.not_rightParen
  cases h with
  | none => exact .none
  | one h => exact hsome (List.cons_ne_nil _ _) (List.ne_nil_of_length_pos h.length_pos)
  | more h => exact hsome (List.cons_ne_nil _ _) (by simp)

theorem not_goesOn_of_stops {level : Level} {rest : List Token} (hs : Stops level rest) :
    ¬ GoesOn level rest.head? := by
  rintro ⟨s, hhead, hlevel⟩
  exact hs.ne hlevel (Nat.le_refl _) hhead

mutual

/-- **What the grammar derives the descent finds**, up to a token that does not go on with it. -/
theorem reads_of_derives {level : Level} {used : List Token} {e : Expr} :
    Derives level used e → ∀ {rest : List Token}, Stops level rest →
      Reads level used rest.head? (.ok e)
  | .pass hl h, _, hs =>
    .alone hl (not_leading_of_derives (ne_operand (Or.inr hl)) h _) (not_goesOn_of_stops hs)
      (reads_of_derives h hs.tighter)
  | .assign hl hr, rest, hs => by
    have hstop : Stops .disjunction (.symbol .equals :: rest) :=
      stops_cons (by rintro l ⟨⟩; decide)
    have h := Reads.assign (reads_of_derives hl hstop) (reads_of_derives hr hs.tighter)
    exact h
  | .chain hl h hc, rest, hs => by
    have hfirst := reads_of_derives h (hc.stops hs)
    rw [head?_append] at hfirst
    exact .chain hl hfirst (readsChain_of_chain hc hs)
  | .lead hlead h, _, hs => by
    obtain ⟨build, hbuild, rfl⟩ := leads_iff.mp hlead
    have h := Reads.lead hbuild (reads_of_derives h hs)
    exact h
  | .power hb he, rest, hs => by
    have hstop : Stops .factorial (.symbol .caret :: rest) := stops_cons (by rintro l ⟨⟩; decide)
    have h := Reads.power (reads_of_derives hb hstop) (reads_of_derives he hs)
    exact h
  | .factorial h, rest, _ => by
    have hstop : Stops .operand (.symbol .bang :: rest) := stops_cons (by rintro l ⟨⟩; decide)
    exact .factorial (reads_of_derives h hstop)
  | .number, _, _ => .number
  | .constant hm, _, _ => .constant hm
  | .free hm, _, _ => .free hm
  | .group h, rest, _ => by
    have hstop : Stops .assignment (.symbol .rightParen :: rest) := stops_cons (by rintro l ⟨⟩)
    exact .group (reads_of_derives h hstop)
  | .call hf ha, rest, _ => by
    have hmore := readsArguments_of_more ha fun hne => readsMore_of_arguments ha hne rest.head?
    have h := Reads.call hf hmore
    exact h

theorem readsChain_of_chain {level : Level} {a e : Expr} {more : List Token} :
    Chain level a more e → ∀ {rest : List Token}, Stops level rest →
      ReadsChain level a more rest.head? (.ok e)
  | .finish, _, hs => .finish (not_goesOn_of_stops hs)
  | .join hj hr hc, rest, hs => by
    have hright := reads_of_derives hr (hc.stops hs)
    have hmore := readsChain_of_chain hc hs
    -- only now, since this puts the joined tree in the place of the one that `hc` begins with
    obtain ⟨build, hbuild, rfl⟩ := joins_iff.mp hj
    rw [head?_append] at hright
    exact .join hbuild hright hmore

theorem readsMore_of_arguments {tokens : List Token} {es : List Expr} :
    Arguments tokens es → es ≠ [] → ∀ next : Option Token,
      ReadsMore (tokens ++ [.symbol .rightParen]) next (.ok es)
  | .none, hne, _ => absurd rfl hne
  | .one h, _, next => by
    have hstop : Stops .assignment [.symbol .rightParen] := stops_cons (by rintro l ⟨⟩)
    exact .last (reads_of_derives h hstop)
  | .more h hne ha, _, next => by
    have hstop : Stops .assignment [.symbol .comma] := stops_cons (by rintro l ⟨⟩)
    have h := ReadsMore.more (reads_of_derives h hstop) (readsMore_of_arguments ha hne next)
    rwa [List.append_assoc, List.cons_append]

end

/-! ## The descent ends -/

/-- Whether the descent from the level ends on the tokens. -/
def Readable (level : Level) (tokens : List Token) : Prop :=
  ∃ used rest outcome, tokens = used ++ rest ∧ Reads level used rest.head? outcome

theorem rank_le_operand (level : Level) : level.rank ≤ Level.operand.rank := by
  cases level <;> decide

theorem joining_of_goesOn {level : Level} {s : Symbol} (hl : level ∈ Level.chained)
    (hs : s.level? = some level) : ∃ build, level.joining? s = some build := by
  cases s <;> cases hs <;> first | exact ⟨_, rfl⟩ | exact absurd hl (by decide)

/-- The loop over the operators of a level ends, since each turn uses up an operator. -/
theorem readsChain_ends {level : Level} (hl : level ∈ Level.chained) (tokens : List Token)
    (a : Expr) (hless : ∀ t : List Token, t.length < tokens.length → Readable level.tighter t) :
    ∃ used rest outcome, tokens = used ++ rest ∧ ReadsChain level a used rest.head? outcome := by
  by_cases hgo : GoesOn level tokens.head?
  · obtain ⟨s, hhead, hs⟩ := hgo
    obtain ⟨behind, rfl⟩ := List.head?_eq_some_iff.mp hhead
    obtain ⟨build, hbuild⟩ := joining_of_goesOn hl hs
    obtain ⟨right, more, outcome, rfl, hright⟩ := hless behind (Nat.lt_succ_self _)
    cases outcome with
    | error needed => exact ⟨_, more, _, rfl, .joinFails hbuild hright⟩
    | ok b =>
      have hmore (t : List Token) (ht : t.length < more.length) : Readable level.tighter t :=
        hless t (by simp only [List.length_cons, List.length_append]; omega)
      obtain ⟨used, rest, outcome, rfl, hused⟩ := readsChain_ends hl more (build a b) hmore
      rw [head?_append] at hright
      exact ⟨_, rest, outcome, by simp, .join hbuild hright hused⟩
  · exact ⟨[], tokens, .ok a, rfl, .finish hgo⟩
termination_by tokens.length
decreasing_by
  subst_vars
  simp only [List.length_cons, List.length_append]
  omega

/-- The loop over the arguments of a call ends, since each turn uses up a comma. -/
theorem readsMore_ends (tokens : List Token)
    (hless : ∀ t : List Token, t.length ≤ tokens.length → Readable .assignment t) :
    ∃ used rest outcome, tokens = used ++ rest ∧ ReadsMore used rest.head? outcome := by
  obtain ⟨first, behind, outcome, rfl, hfirst⟩ := hless tokens (Nat.le_refl _)
  cases outcome with
  | error needed => exact ⟨first, behind, _, rfl, .fails hfirst⟩
  | ok a =>
    by_cases hcomma : behind.head? = some (.symbol .comma)
    · obtain ⟨more, rfl⟩ := List.head?_eq_some_iff.mp hcomma
      have hmore (t : List Token) (ht : t.length ≤ more.length) : Readable .assignment t :=
        hless t (by simp only [List.length_cons, List.length_append]; omega)
      obtain ⟨others, rest, outcome, rfl, hothers⟩ := readsMore_ends more hmore
      exact ⟨_, rest, _, by simp, .more hfirst hothers⟩
    by_cases hclose : behind.head? = some (.symbol .rightParen)
    · obtain ⟨rest, rfl⟩ := List.head?_eq_some_iff.mp hclose
      exact ⟨_, rest, _, by simp, .last hfirst⟩
    · exact ⟨first, behind, _, rfl, .unclosed hfirst hcomma hclose⟩
termination_by tokens.length
decreasing_by
  subst_vars
  simp only [List.length_cons, List.length_append]
  omega

theorem readsArguments_ends (tokens : List Token)
    (hless : ∀ t : List Token, t.length ≤ tokens.length → Readable .assignment t) :
    ∃ used rest outcome, tokens = used ++ rest ∧ ReadsArguments used rest.head? outcome := by
  by_cases hhead : tokens.head? = some (.symbol .rightParen)
  · obtain ⟨rest, rfl⟩ := List.head?_eq_some_iff.mp hhead
    exact ⟨[_], rest, _, rfl, .none⟩
  · obtain ⟨used, rest, outcome, rfl, hused⟩ := readsMore_ends tokens hless
    rw [head?_append] at hhead
    exact ⟨used, rest, outcome, rfl, .some hhead hused⟩

/-- An operand uses up a token before it asks for an expression again. -/
theorem readable_operand (tokens : List Token)
    (hless : ∀ t : List Token, t.length < tokens.length → Readable .assignment t) :
    Readable .operand tokens := by
  cases tokens with
  | nil => exact ⟨[], [], _, rfl, .missing id⟩
  | cons t rest =>
    cases t with
    | number value => exact ⟨[_], rest, _, rfl, .number⟩
    | identifier name =>
      cases hm : Name.meaning name with
      | constant value => exact ⟨[_], rest, _, rfl, .constant hm⟩
      | free => exact ⟨[_], rest, _, rfl, .free hm⟩
      | function f =>
        by_cases hopen : rest.head? = some (.symbol .leftParen)
        · obtain ⟨behind, rfl⟩ := List.head?_eq_some_iff.mp hopen
          obtain ⟨used, rest, outcome, rfl, hused⟩ := readsArguments_ends behind fun t ht =>
            hless t (by simp only [List.length_cons]; omega)
          exact ⟨_, rest, _, rfl, .call hm hused⟩
        · exact ⟨[_], rest, _, rfl, .uncalled hm hopen⟩
    | symbol s =>
      by_cases hopen : s = .leftParen
      · subst hopen
        obtain ⟨used, behind, outcome, rfl, hused⟩ := hless rest (Nat.lt_succ_self _)
        cases outcome with
        | error needed => exact ⟨_, behind, _, rfl, .groupFails hused⟩
        | ok a =>
          by_cases hclose : behind.head? = some (.symbol .rightParen)
          · obtain ⟨rest, rfl⟩ := List.head?_eq_some_iff.mp hclose
            exact ⟨_, rest, _, by simp, .group hused⟩
          · exact ⟨_, behind, _, rfl, .unclosed hused hclose⟩
      · refine ⟨[], .symbol s :: rest, _, rfl, .missing ?_⟩
        cases s <;> first | exact id | exact absurd rfl hopen

/-- An operator in front of an operand is used up. -/
theorem readable_leading {level : Level} {tokens : List Token} (hlead : Leading level tokens.head?)
    (hless : ∀ t : List Token, t.length < tokens.length → Readable level t) :
    Readable level tokens := by
  obtain ⟨s, hhead, hs⟩ := hlead
  obtain ⟨behind, rfl⟩ := List.head?_eq_some_iff.mp hhead
  obtain ⟨build, hbuild⟩ := Option.ne_none_iff_exists'.mp hs
  obtain ⟨used, rest, outcome, rfl, hused⟩ := hless behind (Nat.lt_succ_self _)
  exact ⟨_, rest, _, rfl, .lead hbuild hused⟩

/-- Behind an expression of the next level the operator of this one is used up. -/
theorem readable_goesOn {level : Level} {used rest : List Token} {a : Expr}
    (hl : level ∈ Level.optional) (hgo : GoesOn level rest.head?)
    (h : Reads level.tighter used rest.head? (.ok a))
    (hless : ∀ l, ∀ t : List Token, t.length < (used ++ rest).length → Readable l t) :
    Readable level (used ++ rest) := by
  obtain ⟨s, hhead, hs⟩ := hgo
  obtain ⟨behind, rfl⟩ := List.head?_eq_some_iff.mp hhead
  have hbehind (l : Level) : Readable l behind :=
    hless l behind (by simp only [List.length_append, List.length_cons]; omega)
  cases level with
  | assignment =>
    obtain rfl : s = .equals := by cases s <;> first | rfl | cases hs
    obtain ⟨right, rest, outcome, rfl, hright⟩ := hbehind .disjunction
    exact ⟨_, rest, _, by simp, .assign h hright⟩
  | power =>
    obtain rfl : s = .caret := by cases s <;> first | rfl | cases hs
    obtain ⟨exponent, rest, outcome, rfl, hexponent⟩ := hbehind .power
    exact ⟨_, rest, _, by simp, .power h hexponent⟩
  | factorial =>
    obtain rfl : s = .bang := by cases s <;> first | rfl | cases hs
    exact ⟨_, behind, _, by simp, .factorial h⟩
  | negation | sign | root => cases s <;> cases hs
  | _ => exact absurd hl (by decide)

/-- **The descent ends**: each level is entered with fewer tokens than the one before it, or with as
many and from the next looser level. -/
theorem readable (level : Level) (tokens : List Token) : Readable level tokens := by
  have hless (l : Level) (t : List Token) (ht : t.length < tokens.length) : Readable l t :=
    readable l t
  by_cases hl : level = .operand
  · subst hl
    exact readable_operand tokens (hless .assignment)
  -- the next level is asked for the same tokens, so its place has to decide
  have hrank := Level.rank_tighter hl
  have hplaces := rank_le_operand level.tighter
  by_cases hlead : Leading level tokens.head?
  · exact readable_leading hlead (hless level)
  obtain ⟨used, rest, outcome, rfl, hused⟩ := readable level.tighter tokens
  rw [head?_append] at hlead
  cases outcome with
  | error needed => exact ⟨used, rest, _, rfl, .fails hl hlead hused⟩
  | ok a =>
    -- what was found is not empty, so fewer tokens are left for the operators of this level
    have hpos := (hused.derives rfl).length_pos
    rcases level.chained_or_optional with hchained | hoptional | rfl
    · obtain ⟨more, behind, outcome, rfl, hmore⟩ := readsChain_ends hchained rest a fun t ht =>
        hless level.tighter t (by simp only [List.length_append]; omega)
      rw [head?_append] at hused
      exact ⟨_, behind, outcome, by simp, .chain hchained hused hmore⟩
    · by_cases hgo : GoesOn level rest.head?
      · exact readable_goesOn hoptional hgo hused hless
      · exact ⟨used, rest, _, rfl, .alone hoptional hlead hgo hused⟩
    · exact absurd rfl hl
termination_by (tokens.length, Level.operand.rank - level.rank)
decreasing_by
  · exact Prod.Lex.left _ _ ht
  · exact Prod.Lex.right _ (by omega)

end Reckon.Expr
