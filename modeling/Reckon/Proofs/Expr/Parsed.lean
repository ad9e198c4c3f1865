import Reckon.Proofs.Expr.Reader
import Reckon.Proofs.Token.Scan

/-!
# The trees of texts

Not every tree is the tree of a text: a scanned number has no sign, and the names of variables and
functions are identifiers that stand for a variable and for that function. `Parsed` says this of all
nodes of a tree.

Results:
* `lexical_scan`: the tokens of a text carry numbers without a sign and identifiers.
* `parsed_of_parse`: the tree of a text is `Parsed`.
-/

namespace Reckon

/-- The names that are one token. -/
def IsIdentifier (name : String) : Prop :=
  Pattern.Matches .name name.toList ∨ Pattern.Matches .letter name.toList

/-- What a token of a text carries: a number without a sign or an identifier. -/
def Lexical : Token → Prop
  | .number value => 0 ≤ value.unscaled
  | .identifier name => IsIdentifier name
  | .symbol _ => True

namespace Decimal

theorem unscaled_nonneg_of_ofLiteral? {text : List Char} {d : Decimal}
    (h : ofLiteral? text = some d) : 0 ≤ d.unscaled := by
  obtain ⟨e, -, h⟩ := Option.bind_eq_some_iff.mp h
  split at h
  · obtain ⟨s, -, rfl⟩ := Option.map_eq_some_iff.mp h
    exact Int.natCast_nonneg _
  · cases h

end Decimal

theorem lexical_of_token? {p : Pattern} {slice : List Char} {t : Token} (hm : p.Matches slice)
    (ht : p.token? slice = some t) : Lexical t := by
  cases p with
  | decimal =>
    rw [Lexeme.decimal_token?] at ht
    obtain ⟨d, hd, rfl⟩ := Option.map_eq_some_iff.mp ht
    exact Decimal.unscaled_nonneg_of_ofLiteral? hd
  | hexadecimal | binary =>
    cases ht
    exact Int.natCast_nonneg _
  | name =>
    cases ht
    exact Or.inl (by rwa [String.toList_ofList])
  | letter =>
    cases ht
    exact Or.inr (by rwa [String.toList_ofList])
  | symbol s =>
    cases ht
    trivial

theorem Cut.lexical {offset : Nat} {text : List Char} {s : Scan} (h : Cut offset text s) :
    ∀ t ∈ s.tokens, Lexical t := by
  induction h with
  | finish | malformed | stray => exact fun t ht => absurd ht List.not_mem_nil
  | token _ _ hm ht _ ih =>
    intro t' ht'
    rcases List.mem_cons.mp ht' with rfl | ht'
    · exact lexical_of_token? hm.isMatch ht
    · exact ih t' ht'

theorem lexical_scan (text : List Char) : ∀ t ∈ (scan text).tokens, Lexical t :=
  (Scan.cut_go 0 text).lexical

namespace Expr

/-- The trees whose numbers have no sign and whose names are identifiers of the right meaning. -/
inductive Parsed : Expr → Prop
  | num {value : Decimal} (h : 0 ≤ value.unscaled) : Parsed (.num value)
  | var {name : String} (hi : IsIdentifier name) (hm : Name.meaning name = .free) :
      Parsed (.var name)
  | unary {op : UnaryOp} {a : Expr} (h : Parsed a) : Parsed (.unary op a)
  | binary {op : BinaryOp} {a b : Expr} (ha : Parsed a) (hb : Parsed b) : Parsed (.binary op a b)
  | assign {a b : Expr} (ha : Parsed a) (hb : Parsed b) : Parsed (.assign a b)
  | call {name : String} {f : Builtin} {arguments : List Expr} (hi : IsIdentifier name)
      (hm : Name.meaning name = .function f) (ha : ∀ a ∈ arguments, Parsed a) :
      Parsed (.call name f arguments)

theorem constant_nonneg {name : String} {value : Decimal} (h : Name.meaning name = .constant value) :
    0 ≤ value.unscaled := by
  have hall : ∀ c ∈ Name.constants, 0 ≤ c.2.unscaled := by decide
  unfold Name.meaning at h
  split at h
  · next found hfound =>
    cases h
    obtain ⟨before, behind, hsplit, -⟩ := List.lookup_eq_some_iff.mp hfound
    exact hall (name, value) (by rw [hsplit]; simp)
  · split at h <;> cases h

theorem isIdentifier_name (f : Builtin) : IsIdentifier f.name := by
  cases f <;> exact Or.inl (Lexeme.matches_name_of_all (by decide +kernel) (by decide +kernel))

theorem meaning_name (f : Builtin) : Name.meaning f.name = .function f := by
  cases f <;> rfl

/-- A function that an operator stands for is called by an identifier. -/
theorem parsed_apply {f : Builtin} {arguments : List Expr} (ha : ∀ a ∈ arguments, Parsed a) :
    Parsed (.apply f arguments) :=
  .call (isIdentifier_name f) (meaning_name f) ha

theorem parsed_of_joins {level : Level} {s : Symbol} {a b e : Expr} (h : Joins level s a b e)
    (ha : Parsed a) (hb : Parsed b) : Parsed e := by
  have hab : ∀ c ∈ [a, b], Parsed c := by
    simp only [List.mem_cons, List.not_mem_nil, or_false]
    rintro c (rfl | rfl)
    · exact ha
    · exact hb
  cases h with
  | or | and => exact parsed_apply hab
  | relation | shift | sum | product => exact .binary ha hb

theorem parsed_of_leads {level : Level} {s : Symbol} {a e : Expr} (h : Leads level s a e)
    (ha : Parsed a) : Parsed e := by
  have hone : ∀ c ∈ [a], Parsed c := by
    rintro c hc
    rwa [List.mem_singleton.mp hc]
  cases h with
  | not => exact .unary ha
  | minus => exact .binary (.num (by decide)) ha
  | complement | root => exact parsed_apply hone

mutual

theorem parsed_of_derives {level : Level} {tokens : List Token} {e : Expr} :
    Derives level tokens e → (∀ t ∈ tokens, Lexical t) → Parsed e
  | .pass _ h, ht => parsed_of_derives h ht
  | .assign hl hr, ht => by
    obtain ⟨htl, htr⟩ := List.forall_mem_append.mp ht
    exact .assign (parsed_of_derives hl htl)
      (parsed_of_derives hr (List.forall_mem_cons.mp htr).2)
  | .chain _ h hc, ht => by
    obtain ⟨hfirst, hmore⟩ := List.forall_mem_append.mp ht
    exact parsed_of_chain hc (parsed_of_derives h hfirst) hmore
  | .lead hs h, ht =>
    parsed_of_leads hs (parsed_of_derives h (List.forall_mem_cons.mp ht).2)
  | .power hb he, ht => by
    obtain ⟨htb, hte⟩ := List.forall_mem_append.mp ht
    exact .binary (parsed_of_derives hb htb)
      (parsed_of_derives he (List.forall_mem_cons.mp hte).2)
  | .factorial h, ht => .unary (parsed_of_derives h (List.forall_mem_append.mp ht).1)
  | .number, ht => .num (ht _ List.mem_cons_self)
  | .constant hm, _ => .num (constant_nonneg hm)
  | .free hm, ht => .var (ht _ List.mem_cons_self) hm
  | .group h, ht => by
    have ht := (List.forall_mem_cons.mp ht).2
    exact parsed_of_derives h (List.forall_mem_append.mp ht).1
  | .call hf ha, ht => by
    have hi : IsIdentifier _ := ht _ List.mem_cons_self
    have ht := (List.forall_mem_cons.mp (List.forall_mem_cons.mp ht).2).2
    exact .call hi hf (parsed_of_arguments ha (List.forall_mem_append.mp ht).1)

theorem parsed_of_chain {level : Level} {a e : Expr} {more : List Token} :
    Chain level a more e → Parsed a → (∀ t ∈ more, Lexical t) → Parsed e
  | .finish, ha, _ => ha
  | .join hs hr hc, ha, ht => by
    have ht := List.forall_mem_append.mp (List.forall_mem_cons.mp ht).2
    have hb := parsed_of_derives hr ht.1
    exact parsed_of_chain hc (parsed_of_joins hs ha hb) ht.2

theorem parsed_of_arguments {tokens : List Token} {es : List Expr} :
    Arguments tokens es → (∀ t ∈ tokens, Lexical t) → ∀ e ∈ es, Parsed e
  | .none, _ => fun _ he => absurd he List.not_mem_nil
  | .one h, ht => by
    intro e he
    rw [List.mem_singleton.mp he]
    exact parsed_of_derives h ht
  | .more h _ ha, ht => by
    obtain ⟨hfirst, hothers⟩ := List.forall_mem_append.mp ht
    have hone := parsed_of_derives h hfirst
    have hmore := parsed_of_arguments ha (List.forall_mem_cons.mp hothers).2
    exact List.forall_mem_cons.mpr ⟨hone, hmore⟩

end

/-- **The tree of a text has numbers without signs and proper names only.** -/
theorem parsed_of_parse {text : String} {e : Expr} (h : parse text = .ok e) : Parsed e :=
  parsed_of_derives (ofTokens_iff.mp (parse_eq_ok.mp h).2) (lexical_scan text.toList)

end Expr

end Reckon
