import Reckon.Proofs.Expr.Descent

/-!
# The reader accepts the grammar

The reader does what the descent of `Reckon.Proofs.Expr.Descent` does, if the depth suffices that it
may recurse to: `height` bounds the steps from a level to the next operand, and each operand takes
up a token. The descent ends on every list of tokens and finds the trees of the grammar, so the
reader accepts the grammar.

Results:
* `Reads.readLevel`: what the descent does the reader does at every depth that suffices
  (`Suffices`), whatever stands behind the next token.
* `readFirst_eq`: the depth that the reader sets itself suffices.
* `ofTokens_iff`: a list of tokens is read as a tree just if the grammar derives it with this tree.
* `derives_unique`: the grammar is unambiguous.
* `parse_iff_derives`: a text is read as a tree just if it is all tokens and the grammar derives
  them with this tree.
-/

namespace Reckon.Expr

/-! ## The steps of the reader -/

theorem readLevel_chained {level : Level} (hl : level ∈ Level.chained) (depth : Nat)
    (tokens : List Token) : readLevel (depth + 1) level tokens =
      readLevel depth level.tighter tokens >>= fun r => readJoined depth level r.1 r.2 := by
  cases level <;> first | rfl | exact absurd hl (by decide)

/-- The levels with operators in front. -/
def leadingLevels : List Level := [.negation, .sign, .root]

theorem readLevel_leading {level : Level} (hl : level ∈ leadingLevels) (depth : Nat)
    (tokens : List Token) :
    readLevel (depth + 1) level tokens = readLeading depth level tokens := by
  cases level <;> first | rfl | exact absurd hl (by decide)

/-- How many steps of recursion lead from a level to the reading of an operand at most. -/
def height : Level → Nat
  | .assignment => 17
  | .disjunction => 16
  | .conjunction => 15
  | .negation => 14
  | .relation => 12
  | .shift => 11
  | .sum => 10
  | .product => 9
  | .sign => 8
  | .root => 6
  | .power => 4
  | .factorial => 3
  | .operand => 2

theorem height_tighter {level : Level} (h : level ≠ .operand) :
    height level.tighter < height level := by
  cases level <;> first | decide | exact absurd rfl h

theorem height_leading {level : Level} (h : level ∈ leadingLevels) :
    height level.tighter + 2 = height level := by
  cases level <;> first | rfl | exact absurd h (by decide)

theorem height_bounds (level : Level) : 2 ≤ height level ∧ height level ≤ 17 := by
  cases level <;> decide

/-! ## The reader does what the descent does -/

/-- An outcome, with the tokens that are not used. -/
def leaving {α : Type} (rest : List Token) : Except Needed α → Except Refusal (α × List Token)
  | .ok a => .ok (a, rest)
  | .error needed => .error ⟨needed, rest⟩

theorem leaving_map {α β : Type} (rest : List Token) (f : α → β) (outcome : Except Needed α) :
    (leaving rest outcome >>= fun r => pure (f r.1, r.2)) = leaving rest (outcome.map f) := by
  cases outcome <;> rfl

/-- Whether the depth suffices for the descent from the level, where it uses up the tokens. -/
def Suffices (level : Level) (used : List Token) (depth : Nat) : Prop :=
  stepsPerToken * used.length + height level ≤ depth

/-- Whether the depth suffices for the rest of a chain, where it uses up the tokens. -/
def SufficesChain (more : List Token) (depth : Nat) : Prop :=
  stepsPerToken * more.length + 1 ≤ depth

/-- Whether the depth suffices for the descent into arguments, where it uses up the tokens. -/
def SufficesArguments (used : List Token) (depth : Nat) : Prop :=
  stepsPerToken * used.length + height .assignment + 1 ≤ depth

/-- Where no operator of the level stands in front, the next level is asked. -/
theorem readLeading_tighter {level : Level} {tokens : List Token}
    (hlead : ¬ Leading level tokens.head?) (depth : Nat) :
    readLeading (depth + 1) level tokens = readLevel depth level.tighter tokens := by
  unfold readLeading
  split
  · next s rest =>
    split
    · next build hb => exact absurd ⟨s, rfl, by simp [hb]⟩ hlead
    · rfl
  · rfl

/-- Where no operator of the level stands in front, the next level is asked, with a depth that
suffices for it, and then the level goes on by itself. A level that adds one operator at most does
nothing more in front of a token that is not its operator. -/
theorem readLevel_tighter {level : Level} {used tokens : List Token} {depth : Nat}
    (hl : level ≠ .operand) (hlead : ¬ Leading level tokens.head?)
    (hd : Suffices level used depth) :
    ∃ d goOn, Suffices level.tighter used d ∧
      readLevel depth level tokens = readLevel d level.tighter tokens >>= goOn ∧
      (level ∈ Level.optional → ∀ a rest, ¬ GoesOn level rest.head? →
        goOn (a, rest) = .ok (a, rest)) := by
  have hlt := height_tighter hl
  simp only [Suffices] at hd ⊢
  by_cases hleading : level ∈ leadingLevels
  · have hheight := height_leading hleading
    obtain ⟨d, rfl⟩ : ∃ d, depth = d + 2 := ⟨depth - 2, by omega⟩
    refine ⟨d, pure, by omega, ?_, fun _ _ _ _ => rfl⟩
    rw [readLevel_leading hleading, readLeading_tighter hlead, bind_pure]
  · obtain ⟨d, rfl⟩ : ∃ d, depth = d + 1 := ⟨depth - 1, by omega⟩
    by_cases hchained : level ∈ Level.chained
    · refine ⟨d, _, by omega, readLevel_chained hchained d tokens, fun hoptional => ?_⟩
      cases level <;> first | exact absurd hchained (by decide) | exact absurd hoptional (by decide)
    cases level with
    | assignment | power | factorial =>
      refine ⟨d, _, by omega, by rw [readLevel]; rfl, fun _ a rest hnext => ?_⟩
      dsimp only
      split
      · exact absurd ⟨_, rfl, rfl⟩ hnext
      · rfl
    | operand => exact absurd rfl hl
    | _ => first | exact absurd (by decide) hleading | exact absurd (by decide) hchained

theorem readLevel_fails {level : Level} {used rest : List Token} {r : Refusal} {depth : Nat}
    (hl : level ≠ .operand) (hlead : ¬ Leading level (used ++ rest).head?)
    (hd : Suffices level used depth) (ih : ∀ d, Suffices level.tighter used d →
      readLevel d level.tighter (used ++ rest) = .error r) :
    readLevel depth level (used ++ rest) = .error r := by
  obtain ⟨d, goOn, hd, hread, -⟩ := readLevel_tighter hl hlead hd
  rw [hread, ih d hd]
  rfl

theorem readLevel_alone {level : Level} {used rest : List Token} {a : Expr} {depth : Nat}
    (hl : level ∈ Level.optional) (hlead : ¬ Leading level (used ++ rest).head?)
    (hnext : ¬ GoesOn level rest.head?) (hd : Suffices level used depth)
    (ih : ∀ d, Suffices level.tighter used d →
      readLevel d level.tighter (used ++ rest) = .ok (a, rest)) :
    readLevel depth level (used ++ rest) = .ok (a, rest) := by
  obtain ⟨d, goOn, hd, hread, hgoOn⟩ := readLevel_tighter (ne_operand (Or.inr hl)) hlead hd
  rw [hread, ih d hd]
  exact hgoOn hl a rest hnext

/-- Behind an equals sign the value of an assignment is asked for. -/
theorem readLevel_equals {depth : Nat} {tokens more : List Token} {a : Expr}
    (h : readLevel depth .disjunction tokens = .ok (a, .symbol .equals :: more)) :
    readLevel (depth + 1) .assignment tokens =
      readLevel depth .disjunction more >>= fun r => pure (.assign a r.1, r.2) := by
  rw [readLevel, h]
  rfl

/-- Behind a caret the exponent is asked for. -/
theorem readLevel_caret {depth : Nat} {tokens more : List Token} {a : Expr}
    (h : readLevel depth .factorial tokens = .ok (a, .symbol .caret :: more)) :
    readLevel (depth + 1) .power tokens =
      readLevel depth .power more >>= fun r => pure (.binary .pow a r.1, r.2) := by
  rw [readLevel, h]
  rfl

/-- Two operands with an operator between them that stands there once. -/
theorem readLevel_between {level inner : Level} {s : Symbol} {build : Expr → Expr}
    {left right rest : List Token} {a : Expr} {outcome : Except Needed Expr} {depth : Nat}
    (hl : level ≠ .operand)
    (hstep : ∀ {d : Nat} {tokens more : List Token},
      readLevel d level.tighter tokens = .ok (a, .symbol s :: more) →
        readLevel (d + 1) level tokens =
          readLevel d inner more >>= fun r => pure (build r.1, r.2))
    (hd : Suffices level (left ++ .symbol s :: right) depth)
    (ihl : ∀ d behind, behind.head? = some (.symbol s) → Suffices level.tighter left d →
      readLevel d level.tighter (left ++ behind) = .ok (a, behind))
    (ihr : ∀ d, Suffices inner right d →
      readLevel d inner (right ++ rest) = leaving rest outcome) :
    readLevel depth level (left ++ .symbol s :: right ++ rest) =
      leaving rest (outcome.map build) := by
  have hlt := height_tighter hl
  have hle := (height_bounds inner).2
  simp only [Suffices, stepsPerToken, List.length_append, List.length_cons] at hd ihl ihr
  obtain ⟨d, rfl⟩ : ∃ d, depth = d + 1 := ⟨depth - 1, by omega⟩
  rw [List.append_assoc, List.cons_append, hstep (ihl d _ rfl (by omega)), ihr d (by omega)]
  exact leaving_map rest build outcome

theorem readLevel_lead {level : Level} {s : Symbol} {build : Expr → Expr} {used rest : List Token}
    {outcome : Except Needed Expr} {depth : Nat} (hs : level.leading? s = some build)
    (hd : Suffices level (.symbol s :: used) depth)
    (ih : ∀ d, Suffices level used d → readLevel d level (used ++ rest) = leaving rest outcome) :
    readLevel depth level (.symbol s :: used ++ rest) = leaving rest (outcome.map build) := by
  have hlead : level ∈ leadingLevels := by
    obtain ⟨e, h⟩ : ∃ e, Leads level s (.num .zero) e := ⟨_, leads_iff.mpr ⟨build, hs, rfl⟩⟩
    cases h <;> decide
  simp only [Suffices, stepsPerToken, List.length_cons] at hd ih
  obtain ⟨d, rfl⟩ : ∃ d, depth = d + 2 := ⟨depth - 2, by omega⟩
  rw [readLevel_leading hlead, List.cons_append]
  unfold readLeading
  dsimp only
  rw [hs]
  dsimp only
  rw [ih d (by omega)]
  exact leaving_map rest _ outcome

theorem readLevel_chain {level : Level} {first more rest : List Token} {a : Expr}
    {outcome : Except Needed Expr} {depth : Nat} (hl : level ∈ Level.chained)
    (hd : Suffices level (first ++ more) depth)
    (ih : ∀ d, Suffices level.tighter first d →
      readLevel d level.tighter (first ++ (more ++ rest)) = .ok (a, more ++ rest))
    (ihc : ∀ d, SufficesChain more d →
      readJoined d level a (more ++ rest) = leaving rest outcome) :
    readLevel depth level (first ++ more ++ rest) = leaving rest outcome := by
  have hlt := height_tighter (ne_operand (Or.inl hl))
  have hlow := (height_bounds level.tighter).1
  simp only [Suffices, SufficesChain, stepsPerToken, List.length_append] at hd ih ihc
  obtain ⟨d, rfl⟩ : ∃ d, depth = d + 1 := ⟨depth - 1, by omega⟩
  rw [List.append_assoc, readLevel_chained hl, ih d (by omega)]
  exact ihc d (by omega)

theorem readLevel_factorial {used rest : List Token} {a : Expr} {depth : Nat}
    (hd : Suffices .factorial (used ++ [.symbol .bang]) depth)
    (ih : ∀ d behind, behind.head? = some (.symbol .bang) → Suffices .operand used d →
      readLevel d .operand (used ++ behind) = .ok (a, behind)) :
    readLevel depth .factorial (used ++ [.symbol .bang] ++ rest) =
      .ok (.unary .factorial a, rest) := by
  simp only [Suffices, stepsPerToken, List.length_append, height] at hd ih
  obtain ⟨d, rfl⟩ : ∃ d, depth = d + 1 := ⟨depth - 1, by omega⟩
  rw [List.append_assoc, List.singleton_append, readLevel, ih d _ rfl (by omega)]
  rfl

/-! ### Chains -/

theorem readJoined_finish {level : Level} {a : Expr} {rest : List Token} {depth : Nat}
    (hnext : ¬ GoesOn level rest.head?) (hd : SufficesChain [] depth) :
    readJoined depth level a rest = .ok (a, rest) := by
  simp only [SufficesChain] at hd
  obtain ⟨d, rfl⟩ : ∃ d, depth = d + 1 := ⟨depth - 1, by omega⟩
  unfold readJoined
  split
  · next s behind =>
    split
    · next join hj =>
      have h : Joins level s a a (join a a) := joins_iff.mpr ⟨join, hj, rfl⟩
      exact absurd ⟨s, rfl, h.level?⟩ hnext
    · rfl
  · rfl

/-- Behind an operator of the chain its right operand is asked for. -/
theorem readJoined_symbol {level : Level} {s : Symbol} {build : Expr → Expr → Expr}
    (hs : level.joining? s = some build) (depth : Nat) (a : Expr) (tokens : List Token) :
    readJoined (depth + 1) level a (.symbol s :: tokens) =
      readLevel depth level.tighter tokens >>= fun r =>
        readJoined depth level (build a r.1) r.2 := by
  rw [readJoined]
  dsimp only
  rw [hs]

theorem readJoined_join {level : Level} {s : Symbol} {build : Expr → Expr → Expr}
    {right more rest : List Token} {a b : Expr} {outcome : Except Needed Expr} {depth : Nat}
    (hs : level.joining? s = some build)
    (hd : SufficesChain (.symbol s :: (right ++ more)) depth)
    (ihr : ∀ d, Suffices level.tighter right d →
      readLevel d level.tighter (right ++ (more ++ rest)) = .ok (b, more ++ rest))
    (ihc : ∀ d, SufficesChain more d →
      readJoined d level (build a b) (more ++ rest) = leaving rest outcome) :
    readJoined depth level a (.symbol s :: (right ++ more) ++ rest) = leaving rest outcome := by
  have hle := (height_bounds level.tighter).2
  simp only [Suffices, SufficesChain, stepsPerToken, List.length_cons, List.length_append]
    at hd ihr ihc
  obtain ⟨d, rfl⟩ : ∃ d, depth = d + 1 := ⟨depth - 1, by omega⟩
  rw [List.cons_append, List.append_assoc, readJoined_symbol hs, ihr d (by omega)]
  exact ihc d (by omega)

theorem readJoined_joinFails {level : Level} {s : Symbol} {build : Expr → Expr → Expr}
    {right rest : List Token} {a : Expr} {r : Refusal} {depth : Nat}
    (hs : level.joining? s = some build) (hd : SufficesChain (.symbol s :: right) depth)
    (ih : ∀ d, Suffices level.tighter right d →
      readLevel d level.tighter (right ++ rest) = .error r) :
    readJoined depth level a (.symbol s :: right ++ rest) = .error r := by
  have hle := (height_bounds level.tighter).2
  simp only [Suffices, SufficesChain, stepsPerToken, List.length_cons] at hd ih
  obtain ⟨d, rfl⟩ : ∃ d, depth = d + 1 := ⟨depth - 1, by omega⟩
  rw [List.cons_append, readJoined_symbol hs, ih d (by omega)]
  rfl

/-! ### Operands -/

/-- An operand of one token, or of none. -/
theorem readLevel_operand {used tokens : List Token} {r : Except Refusal (Expr × List Token)}
    {depth : Nat} (hd : Suffices .operand used depth)
    (h : ∀ d, readOperand (d + 1) tokens = r) : readLevel depth .operand tokens = r := by
  simp only [Suffices, height] at hd
  obtain ⟨d, rfl⟩ : ∃ d, depth = d + 2 := ⟨depth - 2, by omega⟩
  exact h d

theorem readOperand_constant {name : String} {value : Decimal}
    (hm : Name.meaning name = .constant value) (depth : Nat) (rest : List Token) :
    readOperand (depth + 1) (.identifier name :: rest) = .ok (.num value, rest) := by
  unfold readOperand
  dsimp only
  rw [hm]
  rfl

theorem readOperand_free {name : String} (hm : Name.meaning name = .free) (depth : Nat)
    (rest : List Token) :
    readOperand (depth + 1) (.identifier name :: rest) = .ok (.var name, rest) := by
  unfold readOperand
  dsimp only
  rw [hm]
  rfl

theorem readOperand_uncalled {name : String} {f : Builtin} {rest : List Token}
    (hf : Name.meaning name = .function f) (hnext : rest.head? ≠ some (.symbol .leftParen))
    (depth : Nat) :
    readOperand (depth + 1) (.identifier name :: rest) = .error ⟨.symbol .leftParen, rest⟩ := by
  unfold readOperand
  dsimp only
  rw [hf]
  dsimp only
  split
  · exact absurd rfl hnext
  · rfl

theorem readOperand_missing {rest : List Token} (hnext : ¬ BeginsOperand rest.head?)
    (depth : Nat) : readOperand (depth + 1) rest = .error ⟨.operand, rest⟩ := by
  unfold readOperand
  split
  · exact absurd trivial hnext
  · exact absurd trivial hnext
  · exact absurd trivial hnext
  · rfl

/-- Behind an opening parenthesis an expression is asked for, and then the closing one. -/
theorem readLevel_leftParen (depth : Nat) (tokens : List Token) :
    readLevel (depth + 2) .operand (.symbol .leftParen :: tokens) =
      readLevel depth .assignment tokens >>= fun r =>
        match r.2 with
        | .symbol .rightParen :: rest => pure (r.1, rest)
        | rest => throw ⟨.symbol .rightParen, rest⟩ := by
  rw [readLevel]
  unfold readOperand
  rfl

theorem readLevel_group {used rest : List Token} {a : Expr} {depth : Nat}
    (hd : Suffices .operand (.symbol .leftParen :: (used ++ [.symbol .rightParen])) depth)
    (ih : ∀ d behind, behind.head? = some (.symbol .rightParen) → Suffices .assignment used d →
      readLevel d .assignment (used ++ behind) = .ok (a, behind)) :
    readLevel depth .operand (.symbol .leftParen :: (used ++ [.symbol .rightParen]) ++ rest) =
      .ok (a, rest) := by
  simp only [Suffices, stepsPerToken, List.length_cons, List.length_append, height] at hd ih
  obtain ⟨d, rfl⟩ : ∃ d, depth = d + 2 := ⟨depth - 2, by omega⟩
  rw [List.cons_append, List.append_assoc, List.singleton_append, readLevel_leftParen,
    ih d _ rfl (by omega)]
  rfl

theorem readLevel_groupFails {used rest : List Token} {r : Refusal} {depth : Nat}
    (hd : Suffices .operand (.symbol .leftParen :: used) depth)
    (ih : ∀ d, Suffices .assignment used d →
      readLevel d .assignment (used ++ rest) = .error r) :
    readLevel depth .operand (.symbol .leftParen :: used ++ rest) = .error r := by
  simp only [Suffices, stepsPerToken, List.length_cons, height] at hd ih
  obtain ⟨d, rfl⟩ : ∃ d, depth = d + 2 := ⟨depth - 2, by omega⟩
  rw [List.cons_append, readLevel_leftParen, ih d (by omega)]
  rfl

theorem readLevel_unclosed {used rest : List Token} {a : Expr} {depth : Nat}
    (hnext : rest.head? ≠ some (.symbol .rightParen))
    (hd : Suffices .operand (.symbol .leftParen :: used) depth)
    (ih : ∀ d, Suffices .assignment used d →
      readLevel d .assignment (used ++ rest) = .ok (a, rest)) :
    readLevel depth .operand (.symbol .leftParen :: used ++ rest) =
      .error ⟨.symbol .rightParen, rest⟩ := by
  simp only [Suffices, stepsPerToken, List.length_cons, height] at hd ih
  obtain ⟨d, rfl⟩ : ∃ d, depth = d + 2 := ⟨depth - 2, by omega⟩
  rw [List.cons_append, readLevel_leftParen, ih d (by omega)]
  dsimp only [bind, Except.bind]
  split
  · exact absurd rfl hnext
  · rfl

theorem readLevel_call {name : String} {f : Builtin} {used rest : List Token}
    {outcome : Except Needed (List Expr)} {depth : Nat} (hf : Name.meaning name = .function f)
    (hd : Suffices .operand (.identifier name :: .symbol .leftParen :: used) depth)
    (ih : ∀ d, SufficesArguments used d →
      readArguments (d + 1) (used ++ rest) = leaving rest outcome) :
    readLevel depth .operand (.identifier name :: .symbol .leftParen :: used ++ rest) =
      leaving rest (outcome.map (.call name f)) := by
  simp only [Suffices, SufficesArguments, stepsPerToken, List.length_cons, height] at hd ih
  obtain ⟨d, rfl⟩ : ∃ d, depth = d + 3 := ⟨depth - 3, by omega⟩
  rw [List.cons_append, List.cons_append, readLevel, readOperand]
  dsimp only
  rw [hf]
  dsimp only
  rw [ih d (by omega)]
  exact leaving_map rest _ outcome

/-! ### Arguments -/

theorem readArguments_some {tokens : List Token}
    (hhead : tokens.head? ≠ some (.symbol .rightParen)) (depth : Nat) :
    readArguments (depth + 1) tokens = readMore depth tokens := by
  unfold readArguments
  split
  · exact absurd rfl hhead
  · rfl

theorem readMore_last {used rest : List Token} {a : Expr} {depth : Nat}
    (hd : SufficesArguments (used ++ [.symbol .rightParen]) depth)
    (ih : ∀ d behind, behind.head? = some (.symbol .rightParen) → Suffices .assignment used d →
      readLevel d .assignment (used ++ behind) = .ok (a, behind)) :
    readMore depth (used ++ [.symbol .rightParen] ++ rest) = .ok ([a], rest) := by
  simp only [Suffices, SufficesArguments, stepsPerToken, List.length_append] at hd ih
  obtain ⟨d, rfl⟩ : ∃ d, depth = d + 1 := ⟨depth - 1, by omega⟩
  rw [List.append_assoc, List.singleton_append, readMore, ih d _ rfl (by omega)]
  rfl

theorem readMore_more {first others rest : List Token} {a : Expr}
    {outcome : Except Needed (List Expr)} {depth : Nat}
    (hd : SufficesArguments (first ++ .symbol .comma :: others) depth)
    (ih : ∀ d behind, behind.head? = some (.symbol .comma) → Suffices .assignment first d →
      readLevel d .assignment (first ++ behind) = .ok (a, behind))
    (ihm : ∀ d, SufficesArguments others d →
      readMore d (others ++ rest) = leaving rest outcome) :
    readMore depth (first ++ .symbol .comma :: others ++ rest) =
      leaving rest (outcome.map (a :: ·)) := by
  simp only [Suffices, SufficesArguments, stepsPerToken, List.length_append, List.length_cons]
    at hd ih ihm
  obtain ⟨d, rfl⟩ : ∃ d, depth = d + 1 := ⟨depth - 1, by omega⟩
  rw [List.append_assoc, List.cons_append, readMore, ih d _ rfl (by omega)]
  dsimp only [bind, Except.bind]
  rw [ihm d (by omega)]
  exact leaving_map rest _ outcome

theorem readMore_fails {used rest : List Token} {r : Refusal} {depth : Nat}
    (hd : SufficesArguments used depth)
    (ih : ∀ d, Suffices .assignment used d →
      readLevel d .assignment (used ++ rest) = .error r) :
    readMore depth (used ++ rest) = .error r := by
  simp only [Suffices, SufficesArguments, stepsPerToken] at hd ih
  obtain ⟨d, rfl⟩ : ∃ d, depth = d + 1 := ⟨depth - 1, by omega⟩
  rw [readMore, ih d (by omega)]
  rfl

theorem readMore_unclosed {used rest : List Token} {a : Expr} {depth : Nat}
    (hcomma : rest.head? ≠ some (.symbol .comma))
    (hclose : rest.head? ≠ some (.symbol .rightParen)) (hd : SufficesArguments used depth)
    (ih : ∀ d, Suffices .assignment used d →
      readLevel d .assignment (used ++ rest) = .ok (a, rest)) :
    readMore depth (used ++ rest) = .error ⟨.symbol .rightParen, rest⟩ := by
  simp only [Suffices, SufficesArguments, stepsPerToken] at hd ih
  obtain ⟨d, rfl⟩ : ∃ d, depth = d + 1 := ⟨depth - 1, by omega⟩
  rw [readMore, ih d (by omega)]
  dsimp only [bind, Except.bind]
  split
  · exact absurd rfl hcomma
  · exact absurd rfl hclose
  · rfl

/-! ### All rules -/

mutual

/-- **The reader does what the descent does**, at every depth that suffices, whatever stands behind
the next token. -/
theorem Reads.readLevel {level : Level} {used : List Token} {next : Option Token}
    {outcome : Except Needed Expr} : Reads level used next outcome →
      ∀ {depth : Nat} {rest : List Token}, rest.head? = next → Suffices level used depth →
        Expr.readLevel depth level (used ++ rest) = leaving rest outcome
  | .fails hl hlead h, _, _, hrest, hd => by
    rw [← hrest, ← head?_append] at hlead
    exact readLevel_fails hl hlead hd fun _ => h.readLevel hrest
  | .alone hl hlead hnext h, _, _, hrest, hd => by
    rw [← hrest, ← head?_append] at hlead
    exact readLevel_alone hl hlead (hrest ▸ hnext) hd fun _ => h.readLevel hrest
  | .assign hl hr, _, _, hrest, hd =>
    readLevel_between (by decide) readLevel_equals hd (fun _ _ => hl.readLevel) fun _ =>
      hr.readLevel hrest
  | .chain hl h hc, _, rest, hrest, hd => by
    refine readLevel_chain hl hd (fun _ => h.readLevel ?_) fun _ => hc.readJoined hrest
    rw [head?_append, hrest]
  | .lead hs h, _, _, hrest, hd => readLevel_lead hs hd fun _ => h.readLevel hrest
  | .power hb he, _, _, hrest, hd =>
    readLevel_between (by decide) readLevel_caret hd (fun _ _ => hb.readLevel) fun _ =>
      he.readLevel hrest
  | .factorial h, _, _, _, hd => readLevel_factorial hd fun _ _ => h.readLevel
  | .number, _, _, _, hd => readLevel_operand hd fun _ => rfl
  | .constant hm, _, _, _, hd => readLevel_operand hd fun d => readOperand_constant hm d _
  | .free hm, _, _, _, hd => readLevel_operand hd fun d => readOperand_free hm d _
  | .call hf ha, _, _, hrest, hd => readLevel_call hf hd fun _ => ha.readArguments hrest
  | .uncalled hf hnext, _, _, hrest, hd =>
    readLevel_operand hd (readOperand_uncalled hf (hrest ▸ hnext))
  | .group h, _, _, _, hd => readLevel_group hd fun _ _ => h.readLevel
  | .groupFails h, _, _, hrest, hd => readLevel_groupFails hd fun _ => h.readLevel hrest
  | .unclosed h hnext, _, _, hrest, hd =>
    readLevel_unclosed (hrest ▸ hnext) hd fun _ => h.readLevel hrest
  | .missing hnext, _, _, hrest, hd =>
    readLevel_operand hd (readOperand_missing (hrest ▸ hnext))

theorem ReadsChain.readJoined {level : Level} {a : Expr} {more : List Token} {next : Option Token}
    {outcome : Except Needed Expr} : ReadsChain level a more next outcome →
      ∀ {depth : Nat} {rest : List Token}, rest.head? = next → SufficesChain more depth →
        Expr.readJoined depth level a (more ++ rest) = leaving rest outcome
  | .finish hnext, _, _, hrest, hd => readJoined_finish (hrest ▸ hnext) hd
  | .join hs hr hc, _, rest, hrest, hd => by
    refine readJoined_join hs hd (fun _ => hr.readLevel ?_) fun _ => hc.readJoined hrest
    rw [head?_append, hrest]
  | .joinFails hs hr, _, _, hrest, hd => readJoined_joinFails hs hd fun _ => hr.readLevel hrest

theorem ReadsArguments.readArguments {used : List Token} {next : Option Token}
    {outcome : Except Needed (List Expr)} : ReadsArguments used next outcome →
      ∀ {depth : Nat} {rest : List Token}, rest.head? = next → SufficesArguments used depth →
        Expr.readArguments (depth + 1) (used ++ rest) = leaving rest outcome
  | .none, _, _, _, _ => rfl
  | .some hhead h, _, _, hrest, hd => by
    rw [← hrest, ← head?_append] at hhead
    rw [readArguments_some hhead]
    exact h.readMore hrest hd

theorem ReadsMore.readMore {used : List Token} {next : Option Token}
    {outcome : Except Needed (List Expr)} : ReadsMore used next outcome →
      ∀ {depth : Nat} {rest : List Token}, rest.head? = next → SufficesArguments used depth →
        Expr.readMore depth (used ++ rest) = leaving rest outcome
  | .last h, _, _, _, hd => readMore_last hd fun _ _ => h.readLevel
  | .more h hm, _, _, hrest, hd =>
    readMore_more hd (fun _ _ => h.readLevel) fun _ => hm.readMore hrest
  | .fails h, _, _, hrest, hd => readMore_fails hd fun _ => h.readLevel hrest
  | .unclosed h hcomma hclose, _, _, hrest, hd =>
    readMore_unclosed (hrest ▸ hcomma) (hrest ▸ hclose) hd fun _ => h.readLevel hrest

end

/-! ## Whole texts -/

/-- The depth that a list of tokens sets suffices for it. -/
theorem suffices_depth (level : Level) {used tokens : List Token} (h : used <+: tokens) :
    Suffices level used (stepsPerToken * (tokens.length + 1)) := by
  have hle := (height_bounds level).2
  have hlength := h.length_le
  simp only [Suffices, stepsPerToken]
  omega

/-- **The depth that the reader sets itself plays no part**: it does what the descent does. -/
theorem readFirst_eq {used rest : List Token} {outcome : Except Needed Expr}
    (h : Reads .assignment used rest.head? outcome) :
    readFirst (used ++ rest) = leaving rest outcome :=
  h.readLevel rfl (suffices_depth _ (List.prefix_append used rest))

/-- **The grammar is unambiguous**: a list of tokens has one tree of a level at most. -/
theorem derives_unique {level : Level} {tokens : List Token} {a b : Expr}
    (ha : Derives level tokens a) (hb : Derives level tokens b) : a = b := by
  have henough := suffices_depth level (List.prefix_refl tokens)
  have hreada := (reads_of_derives ha (stops_nil level)).readLevel rfl henough
  have hreadb := (reads_of_derives hb (stops_nil level)).readLevel rfl henough
  have h := hreada.symm.trans hreadb
  cases h
  rfl

/-- **A list of tokens is read as a tree just if the grammar derives it with this tree.** -/
theorem ofTokens_iff {tokens : List Token} {e : Expr} :
    ofTokens tokens = .ok e ↔ Derives .assignment tokens e := by
  constructor
  · intro h
    obtain ⟨used, rest, outcome, rfl, hused⟩ := readable .assignment tokens
    rw [ofTokens, readFirst_eq hused] at h
    obtain ⟨⟨a, behind⟩, ha, hrest⟩ := bind_ok h
    cases outcome with
    | error needed => cases ha
    | ok a =>
      cases ha
      dsimp only at hrest
      split at hrest
      · cases hrest
        rw [List.append_nil]
        exact hused.derives rfl
      · cases hrest
  · intro h
    have hread := readFirst_eq (reads_of_derives h (stops_nil _))
    rw [List.append_nil] at hread
    rw [ofTokens, hread]
    rfl

theorem parse_eq_ok {text : String} {e : Expr} : parse text = .ok e ↔
    (scan text.toList).failure = none ∧ ofTokens (scan text.toList).tokens = .ok e := by
  unfold parse
  dsimp only
  cases ofTokens (scan text.toList).tokens with
  | error r => simp
  | ok a =>
    unfold Scan.next
    cases (scan text.toList).failure with
    | some failure => simp [Except.map]
    | none => simp [Except.map]

theorem parse_of_scan {text : String} {tokens : List Token} {e : Expr}
    (hscan : scan text.toList = ⟨tokens, none⟩) (h : ofTokens tokens = .ok e) :
    parse text = .ok e := by
  rw [parse_eq_ok, hscan]
  exact ⟨rfl, h⟩

/-- **The reader accepts the grammar**: a text is read as a tree just if it is all tokens and the
grammar derives them from the loosest level with this tree. -/
theorem parse_iff_derives (text : String) (e : Expr) : parse text = .ok e ↔
    (scan text.toList).failure = none ∧ Derives .assignment (scan text.toList).tokens e := by
  rw [parse_eq_ok, ofTokens_iff]

end Reckon.Expr
