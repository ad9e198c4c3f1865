import Reckon.Proofs.Expr.Reader

/-!
# Where a text stops being the beginning of an expression

The tokens that the descent has used up can always be gone on with to a whole expression, whether it
has found a tree or failed: what is open is closed, and an operand that is missing is put in. They
cannot be gone on with by the token that it refused, since the descent looks no further than at that
token and does the same whatever stands behind it. So an error names the first token that cannot be
right. The end of the text counts as a token here.

Results:
* `Reads.viable`: what the descent has used up begins an expression of the level.
* `not_viable_of_refused`: no expression goes on as the tokens did where the reader stopped.
* `parse_error_first`: the error of a text that is all tokens names the first token up to which, but
  not through which, the tokens begin an expression.
-/

namespace Reckon

/-- What a syntax error names as found: a token, or the end of the text. -/
def SyntaxError.found? : SyntaxError → Option (Option Token)
  | .unexpectedCharacter _ _ => none
  | .expectedToken _ found => some found
  | .unexpectedToken found => some found

namespace Expr

/-- Tokens with the end of the text behind them. -/
def ended (tokens : List Token) : List (Option Token) := tokens.map some ++ [none]

/-- Whether the tokens of an expression, its end included, begin so. -/
def Viable (before : List (Option Token)) : Prop :=
  ∃ tokens e, ofTokens tokens = .ok e ∧ before <+: ended tokens

/-- The token at this place is the first that cannot be right: up to it the tokens begin an
expression, through it they do not. -/
structure FirstWrong (tokens : List Token) (place : Nat) (found : Option Token) : Prop where
  found : (ended tokens)[place]? = some found
  before : Viable ((ended tokens).take place)
  through : ¬ Viable ((ended tokens).take (place + 1))

/-! ## Tokens with an end -/

theorem ended_append (used rest : List Token) :
    ended (used ++ rest) = used.map some ++ ended rest := by
  simp [ended]

theorem head?_ended (rest : List Token) : (ended rest).head? = some rest.head? := by
  cases rest <;> rfl

theorem ended_getElem? (used rest : List Token) :
    (ended (used ++ rest))[used.length]? = some rest.head? := by
  rw [ended_append, List.getElem?_append_right (by simp), ← head?_ended, List.head?_eq_getElem?]
  simp

theorem ended_take (used rest : List Token) :
    (ended (used ++ rest)).take used.length = used.map some := by
  rw [ended_append, List.take_left' (by simp)]

theorem ended_take_succ (used rest : List Token) :
    (ended (used ++ rest)).take (used.length + 1) = used.map some ++ [rest.head?] := by
  rw [List.take_add_one, ended_take, ended_getElem?]
  rfl

/-- Tokens that begin as others do up to a place go on with the same token there. -/
theorem exists_of_prefix_ended {used tokens : List Token} {next : Option Token}
    (h : used.map some ++ [next] <+: ended tokens) :
    ∃ behind, tokens = used ++ behind ∧ behind.head? = next := by
  induction used generalizing tokens with
  | nil =>
    obtain ⟨more, hmore⟩ := h
    have hhead := congrArg List.head? hmore
    rw [head?_ended] at hhead
    exact ⟨tokens, rfl, (Option.some.inj hhead).symm⟩
  | cons t used ih =>
    cases tokens with
    | nil => simp [ended] at h
    | cons t' tokens =>
      obtain ⟨ht, hmore⟩ := List.cons_prefix_cons.mp h
      obtain ⟨behind, rfl, hbehind⟩ := ih hmore
      exact ⟨behind, by rw [Option.some.inj ht, List.cons_append], hbehind⟩

/-! ## What is used up can be gone on with -/

mutual

/-- **What the descent has used up begins an expression of the level**, also where it failed. -/
theorem Reads.viable {level : Level} {used : List Token} {next : Option Token}
    {outcome : Except Needed Expr} : Reads level used next outcome →
      ∃ more e, Derives level (used ++ more) e
  | .fails _ _ h | .alone _ _ _ h => by
    obtain ⟨more, e, he⟩ := h.viable
    exact ⟨more, e, he.loosen⟩
  | .assign hl hr => by
    obtain ⟨more, b, hb⟩ := hr.viable
    exact ⟨more, _, by simpa using Derives.assign (hl.derives rfl) hb⟩
  | .chain hl h hc => by
    obtain ⟨more, e, he⟩ := hc.viable
    exact ⟨more, e, by simpa using Derives.chain hl (h.derives rfl) he⟩
  | .lead hs h => by
    obtain ⟨more, a, ha⟩ := h.viable
    exact ⟨more, _, .lead (leads_iff.mpr ⟨_, hs, rfl⟩) ha⟩
  | .power hb he => by
    obtain ⟨more, b, hmore⟩ := he.viable
    exact ⟨more, _, by simpa using Derives.power (hb.derives rfl) hmore⟩
  | .factorial h => ⟨[], _, by simpa using Derives.factorial (h.derives rfl)⟩
  | .number => ⟨[], _, .number⟩
  | .constant hm => ⟨[], _, .constant hm⟩
  | .free hm => ⟨[], _, .free hm⟩
  | .call hf ha => by
    obtain ⟨more, inner, es, hinner, hes⟩ := ha.viable
    exact ⟨more, _, by simpa [hinner] using Derives.call hf hes⟩
  | .uncalled hf _ => ⟨[.symbol .leftParen, .symbol .rightParen], _, .call hf .none⟩
  | .group h => ⟨[], _, by simpa using Derives.group (h.derives rfl)⟩
  | .groupFails h | .unclosed h _ => by
    obtain ⟨more, a, ha⟩ := h.viable
    exact ⟨more ++ [.symbol .rightParen], a, by simpa using Derives.group ha⟩
  | .missing _ => ⟨[.number .zero], _, .number⟩

theorem ReadsChain.viable {level : Level} {a : Expr} {used : List Token} {next : Option Token}
    {outcome : Except Needed Expr} : ReadsChain level a used next outcome →
      ∃ more e, Chain level a (used ++ more) e
  | .finish _ => ⟨[], _, .finish⟩
  | .join hs hr hc => by
    obtain ⟨more, e, he⟩ := hc.viable
    have h := Chain.join (joins_iff.mpr ⟨_, hs, rfl⟩) (hr.derives rfl) he
    exact ⟨more, e, by simpa using h⟩
  | .joinFails hs hr => by
    obtain ⟨more, b, hb⟩ := hr.viable
    have hj : Joins level _ a b _ := joins_iff.mpr ⟨_, hs, rfl⟩
    exact ⟨more, _, by simpa using Chain.join hj hb .finish⟩

theorem ReadsArguments.viable {used : List Token} {next : Option Token}
    {outcome : Except Needed (List Expr)} : ReadsArguments used next outcome →
      ∃ more inner es, used ++ more = inner ++ [.symbol .rightParen] ∧ Arguments inner es
  | .none => ⟨[], [], [], rfl, .none⟩
  | .some _ h => by
    obtain ⟨more, inner, es, hinner, -, hes⟩ := h.viable
    exact ⟨more, inner, es, hinner, hes⟩

theorem ReadsMore.viable {used : List Token} {next : Option Token}
    {outcome : Except Needed (List Expr)} : ReadsMore used next outcome →
      ∃ more inner es, used ++ more = inner ++ [.symbol .rightParen] ∧ es ≠ [] ∧ Arguments inner es
  | .last h => ⟨[], _, _, by simp, List.cons_ne_nil _ _, .one (h.derives rfl)⟩
  | .more h hm => by
    obtain ⟨more, inner, es, hinner, hne, hes⟩ := hm.viable
    exact ⟨more, _, _, by simp [hinner], List.cons_ne_nil _ _, .more (h.derives rfl) hne hes⟩
  | .fails h | .unclosed h _ _ => by
    obtain ⟨more, a, ha⟩ := h.viable
    exact ⟨more ++ [.symbol .rightParen], _, _, by simp, List.cons_ne_nil _ _, .one ha⟩

end

/-! ## What is refused cannot be gone on with -/

theorem found?_toSyntaxError (r : Refusal) : r.toSyntaxError.found? = some r.rest.head? := by
  unfold Refusal.toSyntaxError
  cases r.needed <;> rfl

/-- The reader refuses the tokens that the descent has not used. -/
theorem rest_of_refused {used rest : List Token} {outcome : Except Needed Expr} {r : Refusal}
    (h : Reads .assignment used rest.head? outcome) (hr : ofTokens (used ++ rest) = .error r) :
    r.rest = rest := by
  rw [ofTokens, readFirst_eq h] at hr
  cases outcome with
  | error needed =>
    cases hr
    rfl
  | ok a =>
    cases rest with
    | nil => cases hr
    | cons t rest =>
      cases hr
      rfl

/-- **No expression goes on as the tokens did where the reader stopped.** -/
theorem not_viable_of_refused {used rest : List Token} {outcome : Except Needed Expr} {r : Refusal}
    (h : Reads .assignment used rest.head? outcome) (hr : ofTokens (used ++ rest) = .error r) :
    ¬ Viable (used.map some ++ [rest.head?]) := by
  rintro ⟨tokens, e, he, hbegins⟩
  obtain ⟨behind, rfl, hbehind⟩ := exists_of_prefix_ended hbegins
  -- The descent sees the same next token in both lists, so it has the same outcome.
  have hread := readFirst_eq h
  rw [← hbehind] at h
  have hreadBehind := readFirst_eq h
  rw [ofTokens, hread] at hr
  rw [ofTokens, hreadBehind] at he
  cases outcome with
  | error needed => cases he
  | ok a =>
    cases behind with
    | cons t behind => cases he
    | nil =>
      obtain rfl : rest = [] := List.head?_eq_none_iff.mp hbehind.symm
      cases hr

theorem errorAt_of_scanned {s : Scan} (hs : s.failure = none) (r : Refusal) :
    s.errorAt r = r.toSyntaxError := by
  unfold Scan.errorAt
  rw [hs]
  cases r.rest <;> rfl

theorem parse_of_refused {text : String} {r : Refusal} (hscan : (scan text.toList).failure = none)
    (hr : ofTokens (scan text.toList).tokens = .error r) :
    parse text = .error r.toSyntaxError := by
  unfold parse
  dsimp only
  rw [hr, ← errorAt_of_scanned hscan r]

/-- **The error of a text that is all tokens names the first token that cannot be right**: the one
where the reader stopped. -/
theorem parse_error_first {text : String} {error : SyntaxError}
    (hscan : (scan text.toList).failure = none) (h : parse text = .error error) :
    ∃ r place found, ofTokens (scan text.toList).tokens = .error r ∧
      r.rest = (scan text.toList).tokens.drop place ∧ error.found? = some found ∧
      FirstWrong (scan text.toList).tokens place found := by
  cases hr : ofTokens (scan text.toList).tokens with
  | ok e =>
    rw [parse_eq_ok.mpr ⟨hscan, hr⟩] at h
    cases h
  | error r =>
    obtain rfl : r.toSyntaxError = error :=
      Except.error.inj ((parse_of_refused hscan hr).symm.trans h)
    obtain ⟨used, rest, outcome, htokens, hread⟩ := readable .assignment (scan text.toList).tokens
    rw [htokens] at hr ⊢
    have hrest := rest_of_refused hread hr
    refine ⟨r, used.length, rest.head?, rfl, ?_, ?_, ?_, ?_, ?_⟩
    · rw [hrest, List.drop_left]
    · rw [← hrest]
      exact found?_toSyntaxError r
    · exact ended_getElem? used rest
    · rw [ended_take]
      obtain ⟨more, e, he⟩ := hread.viable
      exact ⟨used ++ more, e, ofTokens_iff.mpr he, by simp [ended]⟩
    · rw [ended_take_succ]
      exact not_viable_of_refused hread hr

theorem parse_error_first_minus :
    parse "2^-1" = .error (.unexpectedToken (some (.symbol .minus))) ∧
      FirstWrong [.number (.ofInt 2), .symbol .caret, .symbol .minus, .number (.ofInt 1)] 2
        (some (.symbol .minus)) := by
  have hscan : scan "2^-1".toList = ⟨[.number (.ofInt 2), .symbol .caret, .symbol .minus,
      .number (.ofInt 1)], none⟩ := by decide +kernel
  have hfailure : (scan "2^-1".toList).failure = none := by rw [hscan]
  have hparse : parse "2^-1" = .error (.unexpectedToken (some (.symbol .minus))) :=
    parse_of_refused hfailure (r := ⟨.operand, [.symbol .minus, .number (.ofInt 1)]⟩)
      (by rw [hscan]; rfl)
  obtain ⟨r, place, found, -, -, hfound, hfirst⟩ := parse_error_first hfailure hparse
  cases hfound
  rw [hscan] at hfirst
  obtain rfl : place = 2 := by
    have hplace := hfirst.found
    rcases place with _ | _ | _ | _ | _ | place <;> first | rfl | cases hplace
  exact ⟨hparse, hfirst⟩

end Expr

end Reckon
