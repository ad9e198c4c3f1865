import Reckon.Proofs.Decimal.Bits
import Reckon.Proofs.Evaluation.Erasure
import Reckon.Proofs.Expr.Reader

/-!
# Bit functions of expressions

The operands of a bit function are trees; each `Yields` an integer, and the environment that one
leaves behind is that of the next. A call makes one bit of the corresponding bits of all operands.
A chain of operators is a tree of calls with two operands each, and its value is that of the one
call with all operands. What is known of single bits carries over to integers, since an integer is
determined by its bits.

Results:
* `eval_combinesBits`: the bits of a call's value.
* `eval_chain`, `ofTokens_chain`: the value of a chain of operators, and the tokens that are read as
  one.
* `bitLaws`: the laws of the bit functions together.
-/

namespace Reckon

/-- The functions that combine the bits of their operands, and what they make of the corresponding
bits of all of them. -/
inductive CombinesBits : Builtin → (List Bool → Bool) → Prop
  | and : CombinesBits .bitAnd fun bits => bits.all id
  | or : CombinesBits .bitOr fun bits => bits.any id
  | xor : CombinesBits .bitXor fun bits => decide (Odd (bits.count true))

/-- The function combines its operands from left to right. -/
def Builtin.Folds (f : Builtin) (combine : ℤ → ℤ → ℤ) : Prop :=
  ∃ operation, f.rule = .several (Decimal.foldBits operation combine)

theorem CombinesBits.exists_folds {f : Builtin} {onBits : List Bool → Bool}
    (h : CombinesBits f onBits) : ∃ combine, f.Folds combine ∧ Bits.Combines combine onBits := by
  cases h with
  | and => exact ⟨Bits.and, ⟨"BitAnd", rfl⟩, Bits.combines_and⟩
  | or => exact ⟨Bits.or, ⟨"BitOr", rfl⟩, Bits.combines_or⟩
  | xor => exact ⟨Bits.xor, ⟨"BitXor", rfl⟩, Bits.combines_xor⟩

namespace Expr

/-- The value of the tree is this integer, at a scale from which it can be written out. -/
def Yields (e : Expr) (env : Environment) (n : ℤ) (env' : Environment) : Prop :=
  ∃ d : Decimal, e.eval env = .ok d env' ∧ d.IsInteger n

/-- The trees, one after the other, yield these integers. -/
inductive YieldsAll : List Expr → Environment → List ℤ → Environment → Prop
  | nil {env : Environment} : YieldsAll [] env [] env
  | cons {e : Expr} {rest : List Expr} {n : ℤ} {ns : List ℤ} {env env₁ env' : Environment}
      (h : e.Yields env n env₁) (hs : YieldsAll rest env₁ ns env') :
      YieldsAll (e :: rest) env (n :: ns) env'

/-- The tree of a chain of operators that stand for a function: each takes all before it as its left
operand. -/
def chain (f : Builtin) : Expr → List Expr → Expr :=
  List.foldl fun left right => apply f [left, right]

variable {a b e : Expr} {es rest : List Expr} {env env₁ env' : Environment}
  {m n : ℤ} {ns : List ℤ} {f : Builtin} {combine : ℤ → ℤ → ℤ} {onBits : List Bool → Bool}

/-- A number yields the integer that it is. -/
theorem yields_num {d : Decimal} (h : d.IsInteger n) (env : Environment) :
    (num d).Yields env n env := by
  refine ⟨d, ?_, h⟩
  rw [eval_num]
  rfl

theorem yields_of_eval (h : e.eval env = .ok (.ofInt n) env') : e.Yields env n env' :=
  ⟨_, h, Decimal.isInteger_ofInt n⟩

theorem YieldsAll.exists_all (h : YieldsAll es env ns env') :
    ∃ ds, Evaluation.all (es.map eval) env = .ok ds env' ∧
      List.Forall₂ Decimal.IsInteger ds ns := by
  induction h with
  | nil => exact ⟨[], rfl, .nil⟩
  | cons h _ ih =>
    obtain ⟨d, hd, hinteger⟩ := h
    obtain ⟨ds, hds, hintegers⟩ := ih
    refine ⟨d :: ds, ?_, .cons hinteger hintegers⟩
    rw [List.map_cons, Evaluation.all, Evaluation.bind_of_ok hd, Evaluation.bind_of_ok hds]
    rfl

/-! ## Calls -/

/-- **The value of a call** with at least two operands that are integers. -/
theorem eval_folds (hf : f.Folds combine) (hne : rest ≠ []) (h : e.Yields env n env₁)
    (hs : YieldsAll rest env₁ ns env') :
    (apply f (e :: rest)).eval env = .ok (.ofInt (ns.foldl combine n)) env' := by
  obtain ⟨operation, hrule⟩ := hf
  obtain ⟨second, others, rfl⟩ := List.exists_cons_of_ne_nil hne
  obtain ⟨d, hd, hinteger⟩ := h
  obtain ⟨ds, hds, hintegers⟩ := hs.exists_all
  have hcall : (apply f (e :: second :: others)).eval =
      e.eval >>= fun d => Evaluation.all ((second :: others).map eval) >>= fun ds =>
        .lift (Decimal.foldBits operation combine d ds) := by
    rw [apply, eval_call, Builtin.perform_eq_getD, hrule]
    rfl
  rw [hcall, Evaluation.bind_of_ok hd, Evaluation.bind_of_ok hds,
    Decimal.foldBits_of_integers operation combine hinteger hintegers]
  rfl

theorem eval_pair (hf : f.Folds combine) (ha : a.Yields env m env₁) (hb : b.Yields env₁ n env') :
    (apply f [a, b]).eval env = .ok (.ofInt (combine m n)) env' :=
  eval_folds hf (List.cons_ne_nil _ _) ha (.cons hb .nil)

theorem eval_bitNot (h : e.Yields env n env') :
    (apply .bitNot [e]).eval env = .ok (.ofInt (Bits.not n)) env' := by
  obtain ⟨d, hd, hinteger⟩ := h
  have hcall : (apply .bitNot [e]).eval = e.eval >>= fun d => .lift d.invertBits := by
    rw [apply, eval_call, Builtin.perform_eq_getD]
    rfl
  rw [hcall, Evaluation.bind_of_ok hd, Decimal.invertBits_of_integer hinteger]
  rfl

/-- **The bits of a call's value** are made of the corresponding bits of its operands. -/
theorem eval_combinesBits (hf : CombinesBits f onBits) (hes : 2 ≤ es.length)
    (h : YieldsAll es env ns env') :
    ∃ r : ℤ, (apply f es).eval env = .ok (.ofInt r) env' ∧
      ∀ k, r.testBit k = onBits (ns.map (·.testBit k)) := by
  obtain ⟨combine, hfolds, hcombine⟩ := hf.exists_folds
  cases h with
  | nil => cases hes
  | @cons e rest n ns _ env₁ _ he hrest =>
    have hne : rest ≠ [] := by
      rintro rfl
      exact absurd hes (by simp)
    exact ⟨_, eval_folds hfolds hne he hrest, hcombine.testBit ns n⟩

/-! ## Chains of operators -/

/-- A chain gives one operand after the other to the function. -/
theorem eval_chain_folds (hf : f.Folds combine) (hne : rest ≠ []) (h : e.Yields env n env₁)
    (hs : YieldsAll rest env₁ ns env') :
    (chain f e rest).eval env = .ok (.ofInt (ns.foldl combine n)) env' := by
  -- on the operands behind the first, for the tree of all before them
  induction hs generalizing e n env with
  | nil => exact absurd rfl hne
  | @cons second others k ks env₁ env₂ env' hsecond hothers ih =>
    have hpair := eval_pair hf h hsecond
    cases hothers with
    | nil => exact hpair
    | cons => exact ih (List.cons_ne_nil _ _) (yields_of_eval hpair)

/-- **A chain of operators has the value of one call** with all operands. -/
theorem eval_chain (hf : CombinesBits f onBits) (hne : rest ≠ [])
    (h : YieldsAll (e :: rest) env ns env') :
    (chain f e rest).eval env = (apply f (e :: rest)).eval env := by
  obtain ⟨combine, hfolds, -⟩ := hf.exists_folds
  cases h with
  | cons he hrest => rw [eval_chain_folds hfolds hne he hrest, eval_folds hfolds hne he hrest]

/-- The operators that stand for a function of bits, each with the level of its chains. -/
def bitOperators : List (Level × Symbol × Builtin) :=
  [(.conjunction, .ampersand, .bitAnd), (.disjunction, .pipe, .bitOr)]

variable {level : Level} {s : Symbol}

theorem joins_bitOperators (h : (level, s, f) ∈ bitOperators) (a b : Expr) :
    Joins level s a b (apply f [a, b]) := by
  simp only [bitOperators, List.mem_cons, Prod.mk.injEq, List.not_mem_nil, or_false] at h
  obtain ⟨rfl, rfl, rfl⟩ | ⟨rfl, rfl, rfl⟩ := h
  · exact .and
  · exact .or

/-- How the tokens of a chain go on behind its first operand. -/
theorem chain_of_operands (h : (level, s, f) ∈ bitOperators) {operands : List (List Token × Expr)}
    (hoperands : ∀ o ∈ operands, Derives level.tighter o.1 o.2) (e : Expr) :
    Chain level e (operands.flatMap fun o => .symbol s :: o.1)
      (chain f e (operands.map Prod.snd)) := by
  induction operands generalizing e with
  | nil => exact .finish
  | cons o others ih =>
    rw [List.forall_mem_cons] at hoperands
    exact .join (joins_bitOperators h e o.2) hoperands.1 (ih hoperands.2 _)

/-- **Operands with the operator between them are read as its chain.** -/
theorem ofTokens_chain (h : (level, s, f) ∈ bitOperators) {first : List Token × Expr}
    {operands : List (List Token × Expr)} (hfirst : Derives level.tighter first.1 first.2)
    (hoperands : ∀ o ∈ operands, Derives level.tighter o.1 o.2) :
    ofTokens (first.1 ++ operands.flatMap fun o => .symbol s :: o.1) =
      .ok (chain f first.2 (operands.map Prod.snd)) := by
  have hlevel : level ∈ Level.chained := by
    simp only [bitOperators, List.mem_cons, Prod.mk.injEq, List.not_mem_nil, or_false] at h
    obtain ⟨rfl, -⟩ | ⟨rfl, -⟩ := h <;> decide
  have hchain := Derives.chain hlevel hfirst (chain_of_operands h hoperands first.2)
  exact ofTokens_iff.mpr (hchain.of_rank_le (Nat.zero_le _))

/-- A tilde in front of an operand is read as a call. -/
theorem ofTokens_complement {tokens : List Token} (h : Derives .sign tokens a) :
    ofTokens (.symbol .tilde :: tokens) = .ok (apply .bitNot [a]) :=
  ofTokens_iff.mpr ((Derives.lead .complement h).of_rank_le (Nat.zero_le _))

/-! ## Laws -/

/-- Operands that change nothing yield their integers in any order. -/
theorem yieldsAll_map {value : Expr → ℤ} (h : ∀ e ∈ es, e.Yields env (value e) env) :
    YieldsAll es env (es.map value) env := by
  induction es with
  | nil => exact .nil
  | cons e rest ih =>
    rw [List.forall_mem_cons] at h
    exact .cons h.1 (ih h.2)

/-- **Operands that change nothing may be given in any order.** -/
theorem eval_perm (hf : CombinesBits f onBits) (hes : 2 ≤ es.length) {es' : List Expr}
    (hperm : es.Perm es') (h : ∀ e ∈ es, ∃ n, e.Yields env n env) :
    (apply f es).eval env = (apply f es').eval env := by
  choose! value hvalue using h
  have hvalue' : ∀ e ∈ es', e.Yields env (value e) env :=
    fun e he => hvalue e (hperm.mem_iff.mpr he)
  obtain ⟨r, hr, hbits⟩ := eval_combinesBits hf hes (yieldsAll_map hvalue)
  obtain ⟨r', hr', hbits'⟩ :=
    eval_combinesBits hf (hperm.length_eq ▸ hes) (yieldsAll_map hvalue')
  obtain ⟨combine, -, hcombine⟩ := hf.exists_folds
  have hsame : r = r' := Bits.eq_of_testBit_eq fun k => by
    rw [hbits, hbits']
    exact hcombine.perm_bits _ _ ((hperm.map value).map _)
  rw [hr, hr', hsame]

theorem yieldsAll_num {ds : List Decimal} (h : List.Forall₂ Decimal.IsInteger ds ns)
    (env : Environment) : YieldsAll (ds.map num) env ns env := by
  induction h with
  | nil => exact .nil
  | cons hd _ ih => exact .cons (yields_num hd env) ih

theorem folds_bitAnd : Builtin.bitAnd.Folds Bits.and := ⟨_, rfl⟩

theorem folds_bitOr : Builtin.bitOr.Folds Bits.or := ⟨_, rfl⟩

/-- The complement of a call with two operands is a call of the dual function with their
complements. -/
theorem eval_complement {g : Builtin} {dual : ℤ → ℤ → ℤ} (hf : f.Folds combine) (hg : g.Folds dual)
    (hdual : ∀ m n, Bits.not (combine m n) = dual (Bits.not m) (Bits.not n))
    (ha : a.Yields env m env₁) (hb : b.Yields env₁ n env') :
    (apply .bitNot [apply f [a, b]]).eval env =
      (apply g [apply .bitNot [a], apply .bitNot [b]]).eval env := by
  have hleft := eval_bitNot (yields_of_eval (eval_pair hf ha hb))
  have hright := eval_pair hg (yields_of_eval (eval_bitNot ha)) (yields_of_eval (eval_bitNot hb))
  rw [hleft, hright, hdual]

/-- The laws of the bit functions, for operands that are evaluated in this environment. -/
structure BitLaws (env : Environment) : Prop where
  /-- Decimals that are integers and can be written out are operands. -/
  operands : ∀ {ds : List Decimal} {ns : List ℤ}, List.Forall₂ Decimal.IsInteger ds ns →
    YieldsAll (ds.map num) env ns env
  /-- A call makes one bit of the corresponding bits of all its operands. -/
  bits : ∀ {f onBits es ns env'}, CombinesBits f onBits → 2 ≤ es.length →
    YieldsAll es env ns env' → ∃ r : ℤ, (apply f es).eval env = .ok (.ofInt r) env' ∧
      ∀ k, r.testBit k = onBits (ns.map (·.testBit k))
  /-- Operands that change nothing may be given in any order. -/
  perm : ∀ {f onBits es es'}, CombinesBits f onBits → 2 ≤ es.length → es.Perm es' →
    (∀ e ∈ es, ∃ n, e.Yields env n env) → (apply f es).eval env = (apply f es').eval env
  /-- Between operands, the operator is read as a chain of calls with two operands each. -/
  read : ∀ {level s f} {first : List Token × Expr} {others : List (List Token × Expr)},
    (level, s, f) ∈ bitOperators → Derives level.tighter first.1 first.2 →
    (∀ o ∈ others, Derives level.tighter o.1 o.2) →
    ofTokens (first.1 ++ others.flatMap fun o => .symbol s :: o.1) =
      .ok (chain f first.2 (others.map Prod.snd))
  /-- Such a chain has the value of one call. -/
  chained : ∀ {f onBits e rest ns env'}, CombinesBits f onBits → rest ≠ [] →
    YieldsAll (e :: rest) env ns env' →
    (chain f e rest).eval env = (apply f (e :: rest)).eval env
  read_complement : ∀ {tokens a}, Derives .sign tokens a →
    ofTokens (.symbol .tilde :: tokens) = .ok (apply .bitNot [a])
  complement : ∀ {e n env'}, e.Yields env n env' →
    (apply .bitNot [e]).eval env = .ok (.ofInt (-n - 1)) env'
  involution : ∀ {e n env'}, e.Yields env n env' →
    (apply .bitNot [apply .bitNot [e]]).eval env = .ok (.ofInt n) env'
  not_and : ∀ {a b m n env₁ env'}, a.Yields env m env₁ → b.Yields env₁ n env' →
    (apply .bitNot [apply .bitAnd [a, b]]).eval env =
      (apply .bitOr [apply .bitNot [a], apply .bitNot [b]]).eval env
  not_or : ∀ {a b m n env₁ env'}, a.Yields env m env₁ → b.Yields env₁ n env' →
    (apply .bitNot [apply .bitOr [a, b]]).eval env =
      (apply .bitAnd [apply .bitNot [a], apply .bitNot [b]]).eval env
  /-- A mask takes the bits of `b` where it has ones and those of `a` elsewhere. -/
  select : ∀ {a b mask i j m}, a.Yields env i env → b.Yields env j env → mask.Yields env m env →
    ∃ r : ℤ, (apply .bitOr [apply .bitAnd [a, apply .bitNot [mask]],
        apply .bitAnd [b, mask]]).eval env = .ok (.ofInt r) env ∧
      ∀ k, r.testBit k = if m.testBit k then j.testBit k else i.testBit k

/-- **The bit functions work on two's complement without end**, bit for bit, whatever the order of
the operands and however a chain of operators groups them. -/
theorem bitLaws (env : Environment) : BitLaws env where
  operands h := yieldsAll_num h env
  bits := eval_combinesBits
  perm hf hes hperm h := eval_perm hf hes hperm h
  read h hfirst hothers := ofTokens_chain h hfirst hothers
  chained := eval_chain
  read_complement := ofTokens_complement
  complement := eval_bitNot
  involution {e n env'} h := by
    rw [eval_bitNot (yields_of_eval (eval_bitNot h)), Bits.not_not]
  not_and ha hb := eval_complement folds_bitAnd folds_bitOr Bits.not_and ha hb
  not_or ha hb := eval_complement folds_bitOr folds_bitAnd Bits.not_or ha hb
  select {a b mask i j m} ha hb hmask := by
    have hnot := yields_of_eval (eval_bitNot hmask)
    have hleft := yields_of_eval (eval_pair folds_bitAnd ha hnot)
    have hright := yields_of_eval (eval_pair folds_bitAnd hb hmask)
    refine ⟨_, eval_pair folds_bitOr hleft hright, fun k => ?_⟩
    simp only [Bits.testBit_or, Bits.testBit_and, Bits.testBit_not]
    cases m.testBit k <;> simp

/-- `~5.00 & 12 & 10`, in which the first operand is negative: as a chain, and as a call with the
operands in another order. The bits of `~5.00` are ones from the third on. -/
theorem bitLaws_negative :
    let env : Environment := ⟨.empty, default⟩
    let five : Decimal := ⟨500, ⟨2, by decide, by decide⟩⟩
    let tokens : List Token := [.symbol .tilde, .number five, .symbol .ampersand,
      .number (.ofInt 12), .symbol .ampersand, .number (.ofInt 10)]
    let minusSix : Expr := apply .bitNot [num five]
    (∃ e, ofTokens tokens = .ok e ∧ e.eval env = .ok (.ofInt 8) env) ∧
      (apply .bitAnd [num (.ofInt 12), minusSix, num (.ofInt 10)]).eval env =
        .ok (.ofInt 8) env ∧
      (apply .bitNot [minusSix]).eval env = .ok (.ofInt 5) env ∧
      ∃ r : ℤ, (apply .bitXor [minusSix, num (.ofInt 12)]).eval env = .ok (.ofInt r) env ∧
        r.testBit 2 = true ∧ r.testBit 3 = false ∧ r.testBit 100 = true := by
  intro env five tokens minusSix
  have laws : BitLaws env := bitLaws env
  have hfive : (num five).Yields env 5 env :=
    yields_num (Decimal.isInteger_of_value (by norm_num [five, Decimal.value]) (by decide)) env
  have hsix : minusSix.Yields env (-6) env := yields_of_eval (laws.complement hfive)
  have hint (n : ℤ) : (num (.ofInt n)).Yields env n env :=
    yields_num (Decimal.isInteger_ofInt n) env
  have hall := YieldsAll.cons hsix (.cons (hint 12) (.cons (hint 10) .nil))
  have hcall : (apply .bitAnd [minusSix, num (.ofInt 12), num (.ofInt 10)]).eval env =
      .ok (.ofInt 8) env :=
    eval_folds folds_bitAnd (by simp) hsix (.cons (hint 12) (.cons (hint 10) .nil))
  let first : List Token × Expr := ([.symbol .tilde, .number five], minusSix)
  let others : List (List Token × Expr) :=
    [([.number (.ofInt 12)], num (.ofInt 12)), ([.number (.ofInt 10)], num (.ofInt 10))]
  have hsign : Derives .sign first.1 first.2 :=
    .lead .complement (Derives.number.of_rank_le (by decide))
  have hfirst : Derives .negation first.1 first.2 := hsign.of_rank_le (by decide)
  have hothers : ∀ o ∈ others, Derives .negation o.1 o.2 := by
    simp only [others, List.mem_cons, List.not_mem_nil, or_false, forall_eq_or_imp, forall_eq]
    exact ⟨Derives.number.of_rank_le (by decide), Derives.number.of_rank_le (by decide)⟩
  have hand : (.conjunction, .ampersand, .bitAnd) ∈ bitOperators := .head _
  have hread := laws.read hand hfirst hothers
  have hyields : ∀ e ∈ [minusSix, num (.ofInt 12), num (.ofInt 10)],
      ∃ n, e.Yields env n env := by
    simp only [List.mem_cons, List.not_mem_nil, or_false, forall_eq_or_imp, forall_eq]
    exact ⟨⟨_, hsix⟩, ⟨_, hint 12⟩, ⟨_, hint 10⟩⟩
  have hswap := laws.perm .and (by decide) (.swap _ _ _) hyields
  obtain ⟨r, hr, hbits⟩ := laws.bits .xor (by decide) (.cons hsix (.cons (hint 12) .nil))
  refine ⟨⟨_, hread, (laws.chained .and (by simp) hall).trans hcall⟩, hswap.symm.trans hcall,
    laws.involution hfive, r, hr, ?_, ?_, ?_⟩
  all_goals
    rw [hbits]
    decide

end Expr

end Reckon
