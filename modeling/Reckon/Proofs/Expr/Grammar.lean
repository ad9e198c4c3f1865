import Reckon.Expr.Level
import Reckon.Name

/-!
# The grammar of expressions

`Derives level tokens e` says that the grammar derives the tokens from a level and gives them the
tree `e`, one rule for each production. The operators are listed in `Joins` and `Leads`. Nothing
here refers to the reader.

Results:
* `joins_iff`, `leads_iff`: the listed operators are those of `Level.joining?` and
  `Level.leading?`.
* `Derives.head`: what an expression of a level begins with; no operator in front of a looser level
  is among it.
* `Stops.tighter`: what stands behind an expression of a level does not continue one of a tighter
  level either.
-/

namespace Reckon

namespace Level

/-- The levels at which operands of the next level stand in a chain, with operators between
them. -/
def chained : List Level := [disjunction, conjunction, relation, shift, sum, product]

/-- The levels that add one operator at most to an expression of the next level. -/
def optional : List Level := [assignment, negation, sign, root, power, factorial]

/-- The place of a level, the loosest first. -/
def rank : Level → Nat
  | assignment => 0
  | disjunction => 1
  | conjunction => 2
  | negation => 3
  | relation => 4
  | shift => 5
  | sum => 6
  | product => 7
  | sign => 8
  | root => 9
  | power => 10
  | factorial => 11
  | operand => 12

theorem rank_tighter {level : Level} (h : level ≠ .operand) :
    level.tighter.rank = level.rank + 1 := by
  cases level <;> first | rfl | exact absurd rfl h

theorem rank_le_tighter (level : Level) : level.rank ≤ level.tighter.rank := by
  cases level <;> decide

theorem rank_injective {l m : Level} (h : l.rank = m.rank) : l = m := by
  cases l <;> cases m <;> first | rfl | exact absurd h (by decide)

theorem chained_or_optional (level : Level) :
    level ∈ chained ∨ level ∈ optional ∨ level = .operand := by
  cases level <;> decide

end Level

/-- `Joins level s a b e`: the operator `s` joins the operands `a` and `b` in chains of the level,
and the tree of both is `e`. -/
inductive Joins : Level → Symbol → Expr → Expr → Expr → Prop
  | or {a b : Expr} : Joins .disjunction .pipe a b (.apply .bitOr [a, b])
  | and {a b : Expr} : Joins .conjunction .ampersand a b (.apply .bitAnd [a, b])
  | relation {op : BinaryOp} {s : Symbol} {a b : Expr} (hs : op.symbol = s)
      (h : op ∈ [.equal, .notEqual, .less, .lessEqual, .greater, .greaterEqual]) :
      Joins .relation s a b (.binary op a b)
  | shift {op : BinaryOp} {s : Symbol} {a b : Expr} (hs : op.symbol = s)
      (h : op ∈ [.shiftLeft, .shiftRight]) : Joins .shift s a b (.binary op a b)
  | sum {op : BinaryOp} {s : Symbol} {a b : Expr} (hs : op.symbol = s) (h : op ∈ [.add, .sub]) :
      Joins .sum s a b (.binary op a b)
  | product {op : BinaryOp} {s : Symbol} {a b : Expr} (hs : op.symbol = s)
      (h : op ∈ [.mul, .div, .mod]) : Joins .product s a b (.binary op a b)

/-- `Leads level s a e`: the operator `s` stands in front of the operand `a` of its own level, and
the tree of both is `e`. -/
inductive Leads : Level → Symbol → Expr → Expr → Prop
  | not {a : Expr} : Leads .negation .bang a (.unary .not a)
  | minus {a : Expr} : Leads .sign .minus a (.binary .sub (.num .zero) a)
  | complement {a : Expr} : Leads .sign .tilde a (.apply .bitNot [a])
  | root {a : Expr} : Leads .root .root a (.apply .sqrt [a])

mutual

/-- The token lists that the grammar derives from a level, and their trees. -/
inductive Derives : Level → List Token → Expr → Prop
  /-- The operator of the level is left out. -/
  | pass {level : Level} {tokens : List Token} {a : Expr} (hl : level ∈ Level.optional)
      (h : Derives level.tighter tokens a) : Derives level tokens a
  | assign {left right : List Token} {a b : Expr} (hl : Derives .disjunction left a)
      (hr : Derives .disjunction right b) :
      Derives .assignment (left ++ .symbol .equals :: right) (.assign a b)
  | chain {level : Level} {first more : List Token} {a e : Expr} (hl : level ∈ Level.chained)
      (h : Derives level.tighter first a) (hc : Chain level a more e) :
      Derives level (first ++ more) e
  | lead {level : Level} {s : Symbol} {tokens : List Token} {a e : Expr}
      (hs : Leads level s a e) (h : Derives level tokens a) : Derives level (.symbol s :: tokens) e
  | power {base exponent : List Token} {a b : Expr} (hb : Derives .factorial base a)
      (he : Derives .power exponent b) :
      Derives .power (base ++ .symbol .caret :: exponent) (.binary .pow a b)
  | factorial {tokens : List Token} {a : Expr} (h : Derives .operand tokens a) :
      Derives .factorial (tokens ++ [.symbol .bang]) (.unary .factorial a)
  | number {value : Decimal} : Derives .operand [.number value] (.num value)
  | constant {name : String} {value : Decimal} (h : Name.meaning name = .constant value) :
      Derives .operand [.identifier name] (.num value)
  | free {name : String} (h : Name.meaning name = .free) :
      Derives .operand [.identifier name] (.var name)
  | group {tokens : List Token} {a : Expr} (h : Derives .assignment tokens a) :
      Derives .operand (.symbol .leftParen :: (tokens ++ [.symbol .rightParen])) a
  | call {name : String} {f : Builtin} {tokens : List Token} {arguments : List Expr}
      (hf : Name.meaning name = .function f) (ha : Arguments tokens arguments) :
      Derives .operand
        (.identifier name :: .symbol .leftParen :: (tokens ++ [.symbol .rightParen]))
        (.call name f arguments)

/-- How a chain that begins with a tree goes on, and the tree of the whole chain: each operator
takes all before it as its left operand. -/
inductive Chain : Level → Expr → List Token → Expr → Prop
  | finish {level : Level} {a : Expr} : Chain level a [] a
  | join {level : Level} {s : Symbol} {right more : List Token} {a b joined e : Expr}
      (hs : Joins level s a b joined) (hr : Derives level.tighter right b)
      (hc : Chain level joined more e) : Chain level a (.symbol s :: (right ++ more)) e

/-- Expressions with commas between them, possibly none. -/
inductive Arguments : List Token → List Expr → Prop
  | none : Arguments [] []
  | one {tokens : List Token} {a : Expr} (h : Derives .assignment tokens a) : Arguments tokens [a]
  | more {first others : List Token} {a : Expr} {as : List Expr} (h : Derives .assignment first a)
      (hne : as ≠ []) (ha : Arguments others as) :
      Arguments (first ++ .symbol .comma :: others) (a :: as)

end

/-! ## The tables of operators -/

theorem joins_iff {level : Level} {s : Symbol} {a b e : Expr} :
    Joins level s a b e ↔ ∃ join, level.joining? s = some join ∧ join a b = e := by
  constructor
  · intro h
    cases h with
    | or | and => exact ⟨_, rfl, rfl⟩
    | @relation op _ _ _ hs h | @shift op _ _ _ hs h | @sum op _ _ _ hs h
    | @product op _ _ _ hs h =>
      subst hs
      cases op <;> first | exact ⟨_, rfl, rfl⟩ | exact absurd h (by decide)
  · rintro ⟨join, h, rfl⟩
    unfold Level.joining? at h
    split at h
    all_goals cases h
    · exact .or
    · exact .and
    iterate 6 exact .relation rfl (by decide)
    iterate 2 exact .shift rfl (by decide)
    iterate 2 exact .sum rfl (by decide)
    iterate 3 exact .product rfl (by decide)

theorem leads_iff {level : Level} {s : Symbol} {a e : Expr} :
    Leads level s a e ↔ ∃ build, level.leading? s = some build ∧ build a = e := by
  constructor
  · rintro (_ | _ | _ | _) <;> exact ⟨_, rfl, rfl⟩
  · rintro ⟨build, h, rfl⟩
    unfold Level.leading? at h
    split at h
    all_goals cases h
    · exact .not
    · exact .minus
    · exact .complement
    · exact .root

theorem Leads.level_unique {l m : Level} {s : Symbol} {a b e f : Expr} (hl : Leads l s a e)
    (hm : Leads m s b f) : l = m := by
  cases hl <;> cases hm <;> rfl

/-! ## Looser levels -/

theorem Derives.loosen {level : Level} {tokens : List Token} {a : Expr}
    (h : Derives level.tighter tokens a) : Derives level tokens a := by
  rcases level.chained_or_optional with hl | hl | rfl
  · have hc := Derives.chain hl h .finish
    rwa [List.append_nil] at hc
  · exact .pass hl h
  · exact h

/-- An expression of a level is an expression of all looser levels. -/
theorem Derives.of_rank_le {level l : Level} {tokens : List Token} {a : Expr}
    (h : Derives level tokens a) (hl : l.rank ≤ level.rank) : Derives l tokens a := by
  induction hk : level.rank - l.rank generalizing l with
  | zero =>
    have heq : l = level := Level.rank_injective (by omega)
    exact heq ▸ h
  | succ k ih =>
    have hne : l ≠ .operand := by
      rintro rfl
      have htop : level.rank ≤ Level.operand.rank := by cases level <;> decide
      omega
    have hr := Level.rank_tighter hne
    exact (ih (by omega) (by omega)).loosen

/-! ## What an expression begins with -/

/-- Whether an expression of this level may begin with the token. -/
def Starts (level : Level) : Token → Prop
  | .symbol s => s = .leftParen ∨ ∃ l a e, Leads l s a e ∧ level.rank ≤ l.rank
  | _ => True

theorem Starts.of_le {level level' : Level} {t : Token} (h : Starts level t)
    (hle : level'.rank ≤ level.rank) : Starts level' t := by
  cases t with
  | number | identifier => trivial
  | symbol s =>
    rcases h with h | ⟨l, a, e, hs, hl⟩
    · exact Or.inl h
    · exact Or.inr ⟨l, a, e, hs, Nat.le_trans hle hl⟩

/-- **An expression is not empty, and it begins with an operand or with an operator in front of
one.** -/
theorem Derives.head {level : Level} {tokens : List Token} {e : Expr} :
    Derives level tokens e → ∃ t rest, tokens = t :: rest ∧ Starts level t
  | .pass _ h => by
    obtain ⟨t, rest, rfl, ht⟩ := Derives.head h
    exact ⟨t, rest, rfl, ht.of_le level.rank_le_tighter⟩
  | .assign hl _ => by
    obtain ⟨t, rest, rfl, ht⟩ := Derives.head hl
    exact ⟨t, _, rfl, ht.of_le (Nat.zero_le _)⟩
  | .chain _ h _ => by
    obtain ⟨t, rest, rfl, ht⟩ := Derives.head h
    exact ⟨t, _, rfl, ht.of_le level.rank_le_tighter⟩
  | .lead hs _ => ⟨_, _, rfl, Or.inr ⟨_, _, _, hs, Nat.le_refl _⟩⟩
  | .power hb _ => by
    obtain ⟨t, rest, rfl, ht⟩ := Derives.head hb
    exact ⟨t, _, rfl, ht.of_le (by decide)⟩
  | .factorial h => by
    obtain ⟨t, rest, rfl, ht⟩ := Derives.head h
    exact ⟨t, _, rfl, ht.of_le (by decide)⟩
  | .number | .constant _ | .free _ | .call _ _ => ⟨_, _, rfl, trivial⟩
  | .group _ => ⟨_, _, rfl, Or.inl rfl⟩

theorem Derives.length_pos {level : Level} {tokens : List Token} {e : Expr}
    (h : Derives level tokens e) : 0 < tokens.length := by
  obtain ⟨t, rest, rfl, -⟩ := h.head
  exact Nat.succ_pos _

/-- No operator in front of an operand begins an expression of a tighter level. -/
theorem Derives.not_leads {level : Level} {tokens : List Token} {s : Symbol} {e a b : Expr}
    (hne : level ≠ .operand) (h : Derives level.tighter (.symbol s :: tokens) e) :
    ¬ Leads level s a b := by
  intro hs
  obtain ⟨t, rest, ht, hstarts⟩ := h.head
  obtain ⟨rfl, -⟩ := List.cons.inj ht
  rcases hstarts with rfl | ⟨l, _, _, hf, hle⟩
  · cases hs
  · obtain rfl := hs.level_unique hf
    rw [Level.rank_tighter hne] at hle
    omega

/-- No expression begins with a closing parenthesis. -/
theorem Derives.not_rightParen {level : Level} {tokens : List Token} {e : Expr} :
    ¬ Derives level (.symbol .rightParen :: tokens) e := by
  intro h
  obtain ⟨t, rest, ht, hstarts⟩ := h.head
  obtain ⟨rfl, -⟩ := List.cons.inj ht
  rcases hstarts with h | ⟨l, _, _, hf, -⟩
  · exact absurd h (by decide)
  · cases hf

/-! ## What stands behind an expression -/

/-- The level of the expressions that go on with a symbol behind their first operand. -/
def Symbol.level? : Symbol → Option Level
  | .equals => some .assignment
  | .pipe => some .disjunction
  | .ampersand => some .conjunction
  | .equalEqual | .bangEqual | .less | .lessEqual | .greater | .greaterEqual => some .relation
  | .shiftLeft | .shiftRight => some .shift
  | .plus | .minus => some .sum
  | .star | .slash | .percent => some .product
  | .caret => some .power
  | .bang => some .factorial
  | .tilde | .leftParen | .rightParen | .comma | .root => none

theorem Joins.level? {level : Level} {s : Symbol} {a b e : Expr} (h : Joins level s a b e) :
    s.level? = some level := by
  cases h with
  | or | and => rfl
  | @relation op _ _ _ hs h | @shift op _ _ _ hs h | @sum op _ _ _ hs h
  | @product op _ _ _ hs h =>
    subst hs
    cases op <;> first | rfl | exact absurd h (by decide)

/-- Whether an expression of this level ends in front of these tokens: the first one goes on with
expressions of looser levels only. -/
def Stops (level : Level) (rest : List Token) : Prop :=
  ∀ s l, rest.head? = some (.symbol s) → s.level? = some l → l.rank < level.rank

theorem stops_nil (level : Level) : Stops level [] := by
  intro s l h
  cases h

theorem stops_cons {level : Level} {s : Symbol} {rest : List Token}
    (h : ∀ l, s.level? = some l → l.rank < level.rank) : Stops level (.symbol s :: rest) := by
  rintro s' l ⟨⟩ hl
  exact h l hl

theorem Joins.ne_operand {level : Level} {s : Symbol} {a b e : Expr} (h : Joins level s a b e) :
    level ≠ .operand := by
  cases h <;> decide

/-- Behind an operand of a chain the operator of the chain may stand. -/
theorem Joins.stops {level : Level} {s : Symbol} {a b e : Expr} (h : Joins level s a b e)
    (rest : List Token) : Stops level.tighter (.symbol s :: rest) := by
  refine stops_cons fun l hl => ?_
  obtain rfl := Option.some.inj (h.level?.symm.trans hl)
  rw [Level.rank_tighter h.ne_operand]
  exact Nat.lt_succ_self _

theorem Stops.tighter {level : Level} {rest : List Token} (h : Stops level rest) :
    Stops level.tighter rest :=
  fun s l hs hl => Nat.lt_of_lt_of_le (h s l hs hl) level.rank_le_tighter

theorem Stops.ne {level l : Level} {s : Symbol} {rest : List Token} (h : Stops level rest)
    (hs : s.level? = some l) (hl : level.rank ≤ l.rank) : rest.head? ≠ some (.symbol s) :=
  fun hhead => Nat.not_lt.mpr hl (h s l hhead hs)

/-- Behind the first operand of a chain stands an operator of the chain or what stands behind the
chain. -/
theorem Chain.stops {level : Level} {a e : Expr} {more rest : List Token}
    (h : Chain level a more e) (hs : Stops level rest) : Stops level.tighter (more ++ rest) := by
  cases h with
  | finish => exact hs.tighter
  | join hj => exact hj.stops _

/-- Arguments do not begin with the parenthesis behind them. -/
theorem Arguments.not_rightParen {tokens : List Token} {es : List Expr} :
    ¬ Arguments (.symbol .rightParen :: tokens) es := by
  intro h
  generalize htokens : Token.symbol .rightParen :: tokens = all at h
  cases h with
  | none => cases htokens
  | one h =>
    rw [← htokens] at h
    exact h.not_rightParen
  | more h =>
    obtain ⟨t, rest, rfl, -⟩ := h.head
    obtain ⟨rfl, -⟩ := List.cons.inj htokens
    exact h.not_rightParen

end Reckon
