import Reckon.Proofs.Decimal.RoundTrip
import Reckon.Proofs.Expr.Parsed

/-!
# Writing and reading expressions

`unparse` gives the tokens that an expression is written with. The grammar derives them with this
expression as their tree, and scanning the text of the expression gives just them: behind each token
stands a blank, a parenthesis, a comma or a `!`, and none of these goes on with a token.

Results:
* `derives_unparse`: the tokens of an expression and its tree.
* `written_of_parsed`: the text of an expression and its tokens.
* `parse_render`: the text of the tree of a text is read as that tree.
-/

namespace Reckon.Expr

mutual

/-- The numbers in an expression. -/
def numbers : Expr → List Decimal
  | num value => [value]
  | var _ => []
  | unary _ operand => operand.numbers
  | binary _ left right => left.numbers ++ right.numbers
  | assign target value => target.numbers ++ value.numbers
  | call _ _ arguments => numbersAll arguments

/-- The numbers in expressions. -/
def numbersAll : List Expr → List Decimal
  | [] => []
  | e :: rest => e.numbers ++ numbersAll rest

end

mutual

/-- The tokens that an expression is written with. -/
def unparse : Expr → List Token
  | num value => [.number value]
  | var name => [.identifier name]
  | unary .not operand =>
    .symbol .leftParen :: (.symbol .bang :: operand.unparse ++ [.symbol .rightParen])
  | unary .factorial operand =>
    .symbol .leftParen :: (operand.unparse ++ [.symbol .bang] ++ [.symbol .rightParen])
  | binary op left right =>
    .symbol .leftParen ::
      (left.unparse ++ .symbol op.symbol :: right.unparse ++ [.symbol .rightParen])
  | assign target value =>
    .symbol .leftParen ::
      (target.unparse ++ .symbol .equals :: value.unparse ++ [.symbol .rightParen])
  | call name _ arguments =>
    .identifier name :: .symbol .leftParen :: (unparseAll arguments ++ [.symbol .rightParen])

/-- The tokens that expressions are written with, commas between them. -/
def unparseAll : List Expr → List Token
  | [] => []
  | [e] => e.unparse
  | e :: rest => e.unparse ++ .symbol .comma :: unparseAll rest

end

/-! ## The tokens of an expression and its tree -/

theorem derives_binary {op : BinaryOp} {left right : List Token} {a b : Expr}
    (ha : Derives .operand left a) (hb : Derives .operand right b) :
    Derives .assignment (left ++ .symbol op.symbol :: right) (.binary op a b) := by
  have chain : ∀ {level : Level}, level ∈ Level.chained →
      Joins level op.symbol a b (.binary op a b) →
      Derives .assignment (left ++ .symbol op.symbol :: right) (.binary op a b) := by
    intro level hl hj
    have htop : level.tighter.rank ≤ Level.operand.rank := by cases level <;> decide
    have hc := Derives.chain hl (ha.of_rank_le htop) (.join hj (hb.of_rank_le htop) .finish)
    rw [List.append_nil] at hc
    exact hc.of_rank_le (Nat.zero_le _)
  cases op with
  | equal | notEqual | less | lessEqual | greater | greaterEqual =>
    exact chain (by decide) (.relation rfl (by decide))
  | shiftLeft | shiftRight => exact chain (by decide) (.shift rfl (by decide))
  | add | sub => exact chain (by decide) (.sum rfl (by decide))
  | mul | div | mod => exact chain (by decide) (.product rfl (by decide))
  | pow =>
    have hp := Derives.power (ha.of_rank_le (by decide)) (hb.of_rank_le (by decide))
    exact hp.of_rank_le (Nat.zero_le _)

theorem arguments_unparseAll {es : List Expr}
    (h : ∀ e ∈ es, Derives .operand e.unparse e) : Arguments (unparseAll es) es := by
  induction es with
  | nil => exact .none
  | cons e rest ih =>
    obtain ⟨he, hrest⟩ := List.forall_mem_cons.mp h
    cases rest with
    | nil => exact .one (he.of_rank_le (by decide))
    | cons e' others => exact .more (he.of_rank_le (by decide)) (List.cons_ne_nil _ _) (ih hrest)

/-- **The grammar derives the tokens of an expression, and the expression is their tree.** -/
theorem derives_unparse {e : Expr} (h : Parsed e) : Derives .operand e.unparse e := by
  induction h with
  | num => exact .number
  | var _ hm => exact .free hm
  | @unary op a _ ih =>
    cases op with
    | not =>
      have hn := Derives.lead .not (ih.of_rank_le (by decide))
      exact .group (hn.of_rank_le (by decide))
    | factorial => exact .group ((Derives.factorial ih).of_rank_le (by decide))
  | binary _ _ iha ihb => exact .group (derives_binary iha ihb)
  | assign _ _ iha ihb =>
    exact .group (.assign (iha.of_rank_le (by decide)) (ihb.of_rank_le (by decide)))
  | call _ hm _ ih => exact .call hm (arguments_unparseAll ih)

/-! ## The text of an expression and its tokens -/

/-- Whether a text is these tokens and nothing else, wherever it starts. -/
def Scans (text : List Char) (tokens : List Token) : Prop :=
  ∀ offset, Scan.go offset 0 text = ⟨tokens, none⟩

theorem scans_nil : Scans [] [] := fun _ => rfl

theorem Scans.blank {rest : List Char} {ts : List Token} (h : Scans rest ts) :
    Scans (' ' :: rest) ts := by
  intro offset
  have hb : Blanks [' '] := by
    intro c hc
    rw [List.mem_singleton.mp hc]
    rfl
  exact (Scan.go_blanks hb offset rest).trans (h _)

theorem Scans.match {p : Pattern} {slice rest : List Char} {t : Token} {ts : List Token}
    (hm : LongestMatch (slice ++ rest) p slice) (ht : p.token? slice = some t)
    (h : Scans rest ts) : Scans (slice ++ rest) (t :: ts) := by
  intro offset
  rw [Scan.go_token (hm.isMatch.startsUnblank rest) hm ht, h]
  rfl

/-- A match in front of a character that no match goes on with is one token. -/
theorem Scans.ended {p : Pattern} {slice rest : List Char} {t : Token} {ts : List Token}
    (hm : p.Matches slice) (ht : p.token? slice = some t) (hr : Ends rest) (h : Scans rest ts) :
    Scans (slice ++ rest) (t :: ts) :=
  Scans.match (longestMatch_append hm hr) ht h

theorem Scans.symbol {s : Symbol} {rest : List Char} {ts : List Token} (hr : Ends rest)
    (h : Scans rest ts) : Scans (s.text.toList ++ rest) (.symbol s :: ts) :=
  Scans.ended (.symbol rfl) rfl hr h

/-- A symbol is one token where no longer symbol stands. -/
theorem longestMatch_symbol {s : Symbol} {rest : List Char}
    (h : ∀ t : Symbol, t.text.toList <+: s.text.toList ++ rest →
      t.text.toList.length ≤ s.text.toList.length) :
    LongestMatch (s.text.toList ++ rest) (.symbol s) s.text.toList := by
  refine Lexeme.longestMatch_of_kind (.symbol rfl) (List.prefix_append _ _) ?_
  intro q other hk hm hp
  cases hm with
  | symbol ht =>
    subst ht
    exact h _ hp
  | _ => cases hk

/-- Nothing goes on with an opening parenthesis. -/
theorem Scans.leftParen {rest : List Char} {ts : List Token} (h : Scans rest ts) :
    Scans ('(' :: rest) (.symbol .leftParen :: ts) := by
  refine Scans.match (longestMatch_symbol (s := .leftParen) fun t hp => ?_) rfl h
  obtain ⟨tail, hp⟩ := hp
  cases t <;> cases hp
  exact Nat.le_refl _

/-- Only `=` goes on with `!`. -/
theorem Scans.bang {rest : List Char} {ts : List Token} (hne : ∀ c ∈ rest.head?, c ≠ '=')
    (h : Scans rest ts) : Scans ('!' :: rest) (.symbol .bang :: ts) := by
  refine Scans.match (longestMatch_symbol (s := .bang) fun t hp => ?_) rfl h
  obtain ⟨tail, hp⟩ := hp
  cases t <;> cases hp
  · exact Nat.le_refl _
  · exact absurd rfl (hne '=' rfl)

theorem Scans.rightParen {rest : List Char} {ts : List Token} (hr : Ends rest) (h : Scans rest ts) :
    Scans (')' :: rest) (.symbol .rightParen :: ts) :=
  Scans.symbol (s := .rightParen) hr h

theorem Scans.number {d : Decimal} (hu : 0 ≤ d.unscaled) (hd : d.Readable) {rest : List Char}
    {ts : List Token} (hr : Ends rest) (h : Scans rest ts) :
    Scans (d.render.toList ++ rest) (.number d :: ts) := by
  obtain ⟨_, _, _, hl, -⟩ := Decimal.literal_chars hu
  rw [Decimal.render, String.toList_ofList]
  refine Scans.ended (.decimal hl) ?_ hr h
  rw [Pattern.token?, Decimal.readLiteral_chars hu, if_pos hd]
  rfl

theorem Scans.identifier {name : String} (hi : IsIdentifier name) {rest : List Char}
    {ts : List Token} (hr : Ends rest) (h : Scans rest ts) :
    Scans (name.toList ++ rest) (.identifier name :: ts) := by
  have ht : String.ofList name.toList = name := String.ofList_toList
  rcases hi with hm | hm
  · exact Scans.ended hm (by rw [Pattern.token?, ht]) hr h
  · exact Scans.ended hm (by rw [Pattern.token?, ht]) hr h

/-- A blank, a symbol, a blank. -/
theorem Scans.operator {s : Symbol} {rest : List Char} {ts : List Token} (h : Scans rest ts) :
    Scans (' ' :: (s.text.toList ++ ' ' :: rest)) (.symbol s :: ts) :=
  Scans.blank (Scans.symbol (ends_cons (by decide) rest) (Scans.blank h))

/-- No text of an expression begins with `=`. -/
theorem render_head {e : Expr} (h : Parsed e) : ∃ c more, e.render.toList = c :: more ∧ c ≠ '=' := by
  have identifier : ∀ {name : String}, IsIdentifier name → ∃ c rest,
      name.toList = c :: rest ∧ c ≠ '=' := by
    intro name hi
    have hword : ¬ StartsWord '=' := by decide +kernel
    rcases hi with hm | hm
    all_goals
      obtain ⟨c, rest, hc, hstart⟩ := hm.head
      refine ⟨c, rest, hc, ?_⟩
      rintro rfl
      exact hword hstart
  cases h with
  | num hu =>
    obtain ⟨_, _, _, hl, -⟩ := Decimal.literal_chars hu
    obtain ⟨c, rest, hc, hstart⟩ := hl.head
    refine ⟨c, rest, by rw [render, Decimal.render, String.toList_ofList, hc], ?_⟩
    rintro rfl
    exact absurd hstart (by decide)
  | var hi => exact identifier hi
  | @unary op a _ => cases op <;> exact ⟨'(', _, by simp [render]; rfl, by decide⟩
  | binary | assign => exact ⟨'(', _, by simp [render]; rfl, by decide⟩
  | call hi =>
    obtain ⟨c, rest, hc, hne⟩ := identifier hi
    exact ⟨c, _, by simp [render, hc]; rfl, hne⟩

/-- Whether the text of an expression is cut into its tokens, in front of a character that no match
goes on with. -/
def Written (e : Expr) : Prop :=
  ∀ (rest : List Char) (ts : List Token), Ends rest → Scans rest ts →
    Scans (e.render.toList ++ rest) (e.unparse ++ ts)

theorem scans_renderAll {es : List Expr} (h : ∀ e ∈ es, Written e) {rest : List Char}
    {ts : List Token} (hr : Ends rest) (hs : Scans rest ts) :
    Scans ((renderAll es).toList ++ rest) (unparseAll es ++ ts) := by
  induction es with
  | nil => exact hs
  | cons e others ih =>
    obtain ⟨he, hothers⟩ := List.forall_mem_cons.mp h
    cases others with
    | nil => exact he rest ts hr hs
    | cons e' more =>
      have hcomma : Scans (',' :: ' ' :: ((renderAll (e' :: more)).toList ++ rest))
          (.symbol .comma :: (unparseAll (e' :: more) ++ ts)) :=
        Scans.symbol (s := .comma) (ends_cons (by decide) _) (Scans.blank (ih hothers))
      have hscan := he _ _ (ends_cons (by decide) _) hcomma
      simpa [renderAll, unparseAll] using hscan

theorem written_not {a : Expr} (h : Parsed a) (ha : Written a) : Written (.unary .not a) := by
  intro rest ts hr hs
  have hne : ∀ c ∈ (a.render.toList ++ ')' :: rest).head?, c ≠ '=' := by
    obtain ⟨c, more, hc, hne⟩ := render_head h
    rw [hc]
    rintro d ⟨⟩
    exact hne
  have hinner := ha _ _ (ends_cons (by decide) rest) (Scans.rightParen hr hs)
  have hscan := Scans.leftParen (Scans.bang hne hinner)
  simpa [render, unparse] using hscan

theorem written_factorial {a : Expr} (ha : Written a) : Written (.unary .factorial a) := by
  intro rest ts hr hs
  have hbang := Scans.bang (by rintro c ⟨⟩; decide) (Scans.rightParen hr hs)
  have hscan := Scans.leftParen (ha _ _ (ends_cons (by decide) _) hbang)
  simpa [render, unparse] using hscan

/-- Two operands with a symbol between them, in parentheses. -/
theorem scans_between {a b : Expr} (ha : Written a) (hb : Written b) (s : Symbol)
    {rest : List Char} {ts : List Token} (hr : Ends rest) (hs : Scans rest ts) :
    Scans ('(' :: (a.render.toList ++
        ' ' :: (s.text.toList ++ ' ' :: (b.render.toList ++ ')' :: rest))))
      (.symbol .leftParen ::
        (a.unparse ++ .symbol s :: (b.unparse ++ .symbol .rightParen :: ts))) := by
  have hright := hb _ _ (ends_cons (by decide) rest) (Scans.rightParen hr hs)
  have hoperator := Scans.operator (s := s) hright
  exact Scans.leftParen (ha _ _ (ends_cons (by decide) _) hoperator)

theorem written_binary {op : BinaryOp} {a b : Expr} (ha : Written a) (hb : Written b) :
    Written (.binary op a b) := by
  intro rest ts hr hs
  have hscan := scans_between ha hb op.symbol hr hs
  simpa [render, unparse] using hscan

theorem written_assign {a b : Expr} (ha : Written a) (hb : Written b) : Written (.assign a b) := by
  intro rest ts hr hs
  have hscan := scans_between ha hb .equals hr hs
  simpa [render, unparse, Symbol.text] using hscan

theorem written_call {name : String} {f : Builtin} {arguments : List Expr}
    (hi : IsIdentifier name) (ha : ∀ a ∈ arguments, Written a) :
    Written (.call name f arguments) := by
  intro rest ts hr hs
  have hinner := scans_renderAll ha (ends_cons (by decide) rest) (Scans.rightParen hr hs)
  have hscan := Scans.identifier hi (ends_cons (by decide) _) (Scans.leftParen hinner)
  simpa [render, unparse] using hscan

theorem forall_mem_numbersAll {P : Decimal → Prop} {es : List Expr} :
    (∀ d ∈ numbersAll es, P d) ↔ ∀ e ∈ es, ∀ d ∈ e.numbers, P d := by
  induction es with
  | nil => simp [numbersAll]
  | cons e rest ih => rw [numbersAll, List.forall_mem_append, List.forall_mem_cons, ih]

/-- **The text of an expression is cut into the tokens it is written with.** -/
theorem written_of_parsed {e : Expr} (h : Parsed e) (hd : ∀ d ∈ e.numbers, d.Readable) :
    Written e := by
  induction h with
  | num hu =>
    intro rest ts hr hs
    exact Scans.number hu (hd _ List.mem_cons_self) hr hs
  | var hi =>
    intro rest ts hr hs
    exact Scans.identifier hi hr hs
  | @unary op a ha ih =>
    cases op with
    | not => exact written_not ha (ih hd)
    | factorial => exact written_factorial (ih hd)
  | binary _ _ iha ihb =>
    obtain ⟨hda, hdb⟩ := List.forall_mem_append.mp hd
    exact written_binary (iha hda) (ihb hdb)
  | assign _ _ iha ihb =>
    obtain ⟨hda, hdb⟩ := List.forall_mem_append.mp hd
    exact written_assign (iha hda) (ihb hdb)
  | call hi _ _ ih =>
    have hall := forall_mem_numbersAll.mp hd
    exact written_call hi fun e he => ih e he (hall e he)

/-- Reading the text of a tree whose numbers can be read. -/
theorem parse_render_of_parsed {e : Expr} (h : Parsed e) (hd : ∀ d ∈ e.numbers, d.Readable) :
    parse e.render = .ok e := by
  have hscan : Scans e.render.toList e.unparse := by
    have hw := written_of_parsed h hd _ _ ends_nil scans_nil
    rwa [List.append_nil, List.append_nil] at hw
  rw [parse_eq_ok, scan, hscan 0]
  exact ⟨rfl, ofTokens_iff.mpr ((derives_unparse h).of_rank_le (by decide))⟩

/-- **Writing the tree of a text and reading it gives the same tree**, provided its numbers are
written without an exponent or with one that fits in 64 bits. -/
theorem parse_render (text : String) (e : Expr) (h : parse text = .ok e)
    (hd : ∀ d ∈ e.numbers, 0 ≤ d.scale.toInt ∨
      (numDigits d.unscaled.natAbs : Int) - 1 - d.scale.toInt ≤ 2 ^ 63 - 1) :
    parse e.render = .ok e :=
  parse_render_of_parsed (parsed_of_parse h) hd

theorem parse_render_shift : ∃ e, parse "-x!<<1E3" = .ok e ∧
    e.render = "((0 - (x!)) << 1E+3)" ∧ parse e.render = .ok e := by
  have hscan : scan "-x!<<1E3".toList = ⟨[.symbol .minus, .identifier "x", .symbol .bang,
      .symbol .shiftLeft, .number ⟨1, ⟨-3, by decide, by decide⟩⟩], none⟩ := by decide +kernel
  have hparse : parse "-x!<<1E3" = .ok (.binary .shiftLeft
      (.binary .sub (.num .zero) (.unary .factorial (.var "x")))
      (.num ⟨1, ⟨-3, by decide, by decide⟩⟩)) := by
    rw [parse_eq_ok, hscan]
    exact ⟨rfl, rfl⟩
  exact ⟨_, hparse, by decide +kernel, parse_render _ _ hparse (by decide)⟩

end Reckon.Expr
