import Reckon.Decimal.Error
import Reckon.Proofs.Decimal.Literal
import Reckon.Text.Blank
import Reckon.Token.Lexeme

/-!
# The patterns of tokens

`Pattern.Matches` says which texts match a pattern, one rule for each way a token can be written.
`LongestMatch text p slice` says that `slice` is the longest prefix of `text` that matches any
pattern, and that it matches `p`. Nothing here refers to the functions that measure lexemes.

Results:
* `Matches.unique`: no text matches two patterns.
* `Matches.head`: the first character of a text that matches tells a number, a word and a symbol
  apart.
* `Matches.ending`: a blank, a parenthesis, a comma and `!` stand at the beginning of a match only.
* `LongestMatch.unique`: a text has at most one longest match.
* `longestMatch_append`: a match in front of one of those characters is the longest.
-/

namespace Reckon

/-- The ways in which a token can be written. -/
inductive Pattern
  | decimal
  | hexadecimal
  | binary
  /-- An identifier of any length. -/
  | name
  /-- An identifier of one character. -/
  | letter
  | symbol (s : Symbol)

/-- The digits of hexadecimal literals. -/
def IsHexDigit (c : Char) : Prop :=
  ('0' ≤ c ∧ c ≤ '9') ∨ ('a' ≤ c ∧ c ≤ 'f') ∨ ('A' ≤ c ∧ c ≤ 'F')

/-- The letters that are identifiers by themselves and stand in no other identifier. -/
def IsGreek (c : Char) : Prop := c = 'π' ∨ c = 'Σ' ∨ c = 'Π'

instance (c : Char) : Decidable (IsGreek c) := inferInstanceAs (Decidable (_ ∨ _))

namespace Pattern

/-- The texts that match a pattern. -/
inductive Matches : Pattern → List Char → Prop
  | decimal {text digits : List Char} {places : Nat} {exponent : Int}
      (h : Decimal.Literal text digits places exponent) : Matches .decimal text
  | hexadecimal {mark : Char} {digits : List Char} (hm : mark = 'x' ∨ mark = 'X')
      (hne : digits ≠ []) (hd : ∀ c ∈ digits, IsHexDigit c) :
      Matches .hexadecimal ('0' :: mark :: digits)
  | binary {mark : Char} {digits : List Char} (hm : mark = 'b' ∨ mark = 'B')
      (hne : digits ≠ []) (hd : ∀ c ∈ digits, c = '0' ∨ c = '1') :
      Matches .binary ('0' :: mark :: digits)
  | name {first : Char} {rest : List Char}
      (hf : (Text.isLetter first = true ∨ first = '_') ∧ ¬ IsGreek first)
      (hr : ∀ c ∈ rest, (Text.isLetter c = true ∨ Text.isNumeral c = true ∨ c = '_') ∧ ¬ IsGreek c) :
      Matches .name (first :: rest)
  | letter {c : Char} (hc : IsGreek c ∨ c = '∑' ∨ c = '∏') : Matches .letter [c]
  | symbol {s : Symbol} {text : List Char} (h : s.text.toList = text) : Matches (.symbol s) text

/-- The token of a text that matches, unless it is a literal that stands for no decimal. -/
def token? : Pattern → List Char → Option Token
  | decimal, slice => (Decimal.readLiteral slice).toOption.map .number
  | hexadecimal, slice => some (.number (.ofInt (ofDigits 16 (slice.drop 2))))
  | binary, slice => some (.number (.ofInt (ofDigits 2 (slice.drop 2))))
  | name, slice => some (.identifier (String.ofList slice))
  | letter, slice => some (.identifier (String.ofList slice))
  | symbol s, _ => some (.symbol s)

end Pattern

/-- The longest prefix of a text that matches any pattern, and the pattern it matches. -/
structure LongestMatch (text : List Char) (p : Pattern) (slice : List Char) : Prop where
  begins : slice <+: text
  isMatch : p.Matches slice
  longest : ∀ (q : Pattern) (other : List Char), q.Matches other → other <+: text →
    other.length ≤ slice.length

/-! ## Classes of characters -/

theorem isLetter_of_le {c : Char} (h : c.toNat ≤ 64) : Text.isLetter c = false := by
  have h1 : c.toNat ≤ 0x5A := by omega
  have h2 : ¬ 0x41 ≤ c.toNat := by omega
  rw [Text.isLetter, Text.letterRanges, Text.inRanges, if_pos h1, decide_eq_false h2]

theorem toNat_le_of_isBlank {c : Char} (h : Text.isBlank c = true) : c.toNat ≤ 32 := by
  simp only [Text.isBlank, Bool.or_eq_true, decide_eq_true_eq] at h
  rcases h with (((rfl | rfl) | rfl) | rfl) | rfl <;> decide

theorem isDigit_toNat {c : Char} : c.isDigit = true ↔ 48 ≤ c.toNat ∧ c.toNat ≤ 57 :=
  Char.isDigit_iff_toNat

/-- The first character of a number. -/
def StartsNumber (c : Char) : Prop := c.isDigit = true ∨ c = '.'

instance (c : Char) : Decidable (StartsNumber c) := inferInstanceAs (Decidable (_ ∨ _))

/-- The first character of an identifier. -/
def StartsWord (c : Char) : Prop :=
  (Text.isLetter c = true ∨ c = '_') ∨ IsGreek c ∨ c = '∑' ∨ c = '∏'

instance (c : Char) : Decidable (StartsWord c) := inferInstanceAs (Decidable (_ ∨ _))

theorem not_startsWord_of_startsNumber {c : Char} (h : StartsNumber c) : ¬ StartsWord c := by
  have hle : c.toNat ≤ 57 := by
    rcases h with h | rfl
    · exact (isDigit_toNat.mp h).2
    · decide
  rintro ((hl | rfl) | (rfl | rfl | rfl) | rfl | rfl)
  · rw [isLetter_of_le (by omega)] at hl
    exact Bool.false_ne_true hl
  all_goals exact absurd hle (by decide)

theorem isNumeral_of_lt {c : Char} (h : c.toNat < 48) : Text.isNumeral c = false := by
  have h1 : c.toNat ≤ 0x39 := by omega
  have h2 : ¬ 0x30 ≤ c.toNat := by omega
  rw [Text.isNumeral, Text.numeralRanges, Text.inRanges, if_pos h1, decide_eq_false h2]

/-- The text of a symbol begins with a character that starts nothing else. -/
theorem Symbol.text_head (s : Symbol) : ∃ c rest, s.text.toList = c :: rest ∧
    ¬ StartsNumber c ∧ ¬ StartsWord c ∧ Text.isBlank c = false := by
  cases s <;> exact ⟨_, _, rfl, by decide, by decide +kernel, rfl⟩

theorem Symbol.text_tail {s : Symbol} {c : Char} {rest : List Char} (h : s.text.toList = c :: rest) :
    ∀ d ∈ rest, d = '<' ∨ d = '>' ∨ d = '=' := by
  have hall : s.text.toList.tail.all (fun d => d = '<' || d = '>' || d = '=') = true := by
    cases s <;> rfl
  rw [h, List.tail_cons] at hall
  intro d hd
  simpa [or_assoc] using List.all_eq_true.mp hall d hd

theorem Symbol.text_injective {s t : Symbol} (h : s.text.toList = t.text.toList) : s = t := by
  cases s <;> cases t <;> first | rfl | exact absurd h (by decide)

namespace Pattern

/-- The three kinds of tokens, told apart by their first character. -/
inductive Kind
  | number | word | symbol

/-- The kind of the tokens of a pattern. -/
def kind : Pattern → Kind
  | decimal | hexadecimal | binary => .number
  | name | letter => .word
  | symbol _ => .symbol

/-- Whether a token of this kind may begin with `c`. -/
def Kind.Starts : Kind → Char → Prop
  | number, c => StartsNumber c
  | word, c => StartsWord c
  | symbol, c => ¬ StartsNumber c ∧ ¬ StartsWord c ∧ Text.isBlank c = false

theorem Kind.unique {k l : Kind} {c : Char} (hk : k.Starts c) (hl : l.Starts c) : k = l := by
  cases k <;> cases l
  case number.number | word.word | symbol.symbol => rfl
  case number.word => exact absurd hl (not_startsWord_of_startsNumber hk)
  case word.number => exact absurd hk (not_startsWord_of_startsNumber hl)
  case number.symbol => exact absurd hk hl.1
  case word.symbol => exact absurd hk hl.2.1
  case symbol.number => exact absurd hl hk.1
  case symbol.word => exact absurd hl hk.2.1

/-- No token begins with a blank. -/
theorem Kind.Starts.isBlank {k : Kind} {c : Char} (h : k.Starts c) : Text.isBlank c = false := by
  refine Bool.eq_false_iff.mpr fun hb => ?_
  have hle := toNat_le_of_isBlank hb
  cases k with
  | number =>
    rcases h with h | rfl
    · have := isDigit_toNat.mp h
      omega
    · exact absurd hle (by decide)
  | word =>
    rcases h with (h | rfl) | (rfl | rfl | rfl) | rfl | rfl
    · rw [isLetter_of_le (by omega)] at h
      exact Bool.false_ne_true h
    all_goals exact absurd hle (by decide)
  | symbol => exact Bool.false_ne_true (h.2.2.symm.trans hb)

/-- **The first character of a match tells its kind.** -/
theorem Matches.head {p : Pattern} {text : List Char} (h : p.Matches text) :
    ∃ c rest, text = c :: rest ∧ p.kind.Starts c := by
  cases h with
  | decimal h => exact h.head
  | hexadecimal => exact ⟨_, _, rfl, Or.inl rfl⟩
  | binary => exact ⟨_, _, rfl, Or.inl rfl⟩
  | name hf => exact ⟨_, _, rfl, Or.inl hf.1⟩
  | letter hc => exact ⟨_, _, rfl, Or.inr hc⟩
  | @symbol s _ h =>
    obtain ⟨c, rest, hs, hc⟩ := s.text_head
    exact ⟨c, rest, h.symm.trans hs, hc⟩

/-- Two matches that a text begins with are of one kind. -/
theorem Matches.kind_eq {p q : Pattern} {slice other text : List Char} (hp : p.Matches slice)
    (hq : q.Matches other) (hslice : slice <+: text) (hother : other <+: text) :
    p.kind = q.kind := by
  obtain ⟨c, rest, rfl, hc⟩ := hp.head
  obtain ⟨d, rest', rfl, hd⟩ := hq.head
  obtain ⟨tail, rfl⟩ := hslice
  obtain rfl : d = c := (List.cons_prefix_cons.mp hother).1
  exact Kind.unique hc hd

theorem Matches.ne_nil {p : Pattern} {text : List Char} (h : p.Matches text) : text ≠ [] := by
  obtain ⟨c, rest, rfl, -⟩ := h.head
  exact List.cons_ne_nil c rest

/-- A decimal literal has no letter of a radix in it. -/
theorem not_literal_of_radix {mark : Char} {rest digits : List Char} {places : Nat} {n : Int}
    (hm : (mark = 'x' ∨ mark = 'X') ∨ mark = 'b' ∨ mark = 'B') :
    ¬ Decimal.Literal ('0' :: mark :: rest) digits places n := by
  intro h
  have hc := h.chars mark (List.mem_cons_of_mem _ List.mem_cons_self)
  rcases hm with (rfl | rfl) | rfl | rfl <;> exact absurd hc (by decide)

theorem not_letter_of_name {c : Char} (hf : (Text.isLetter c = true ∨ c = '_') ∧ ¬ IsGreek c) :
    ¬ (IsGreek c ∨ c = '∑' ∨ c = '∏') := by
  obtain ⟨hl, hg⟩ := hf
  rintro (h | rfl | rfl)
  · exact hg h
  all_goals exact absurd hl (by decide +kernel)

/-- **No text matches two patterns.** -/
theorem Matches.unique {p q : Pattern} {text : List Char} (hp : p.Matches text)
    (hq : q.Matches text) : p = q := by
  have hk := hp.kind_eq hq (List.prefix_refl text) (List.prefix_refl text)
  cases hp with
  | decimal h =>
    cases hq with
    | decimal => rfl
    | hexadecimal hm => exact absurd h (not_literal_of_radix (Or.inl hm))
    | binary hm => exact absurd h (not_literal_of_radix (Or.inr hm))
    | _ => cases hk
  | hexadecimal hm =>
    cases hq with
    | decimal h => exact absurd h (not_literal_of_radix (Or.inl hm))
    | hexadecimal => rfl
    | binary hm' => rcases hm with rfl | rfl <;> exact absurd hm' (by decide)
    | _ => cases hk
  | binary hm =>
    cases hq with
    | decimal h => exact absurd h (not_literal_of_radix (Or.inr hm))
    | hexadecimal hm' => rcases hm with rfl | rfl <;> exact absurd hm' (by decide)
    | binary => rfl
    | _ => cases hk
  | name hf =>
    cases hq with
    | name => rfl
    | letter hc => exact absurd hc (not_letter_of_name hf)
    | _ => cases hk
  | letter hc =>
    cases hq with
    | name hf => exact absurd hc (not_letter_of_name hf)
    | letter => rfl
    | _ => cases hk
  | symbol h =>
    cases hq with
    | symbol h' => rw [Symbol.text_injective (h.trans h'.symm)]
    | _ => cases hk

/-- **Behind its first character a match has no character below `-` but `+`**, so none of the
blanks and parentheses, no comma and no `!`. -/
theorem Matches.ending {p : Pattern} {first : Char} {rest : List Char}
    (h : p.Matches (first :: rest)) : ∀ c ∈ rest, 45 ≤ c.toNat ∨ c = '+' := by
  intro c hc
  have digit_le : ∀ {c : Char}, c.isDigit = true → 45 ≤ c.toNat := fun h => by
    have := isDigit_toNat.mp h
    omega
  have hex_le : ∀ {c : Char}, IsHexDigit c → 45 ≤ c.toNat := fun h => by
    simp only [IsHexDigit, Char.le_def, UInt32.le_iff_toNat_le, Char.toNat_val] at h
    have h0 : '0'.toNat = 48 := rfl
    have ha : 'a'.toNat = 97 := rfl
    have hA : 'A'.toNat = 65 := rfl
    omega
  cases h with
  | decimal h =>
    rcases h.chars c (List.mem_cons_of_mem _ hc) with hd | rfl | rfl | rfl | rfl | rfl
    · exact Or.inl (digit_le hd)
    all_goals decide
  | hexadecimal hm hne hd =>
    rcases List.mem_cons.mp hc with rfl | hc
    · rcases hm with rfl | rfl <;> decide
    · exact Or.inl (hex_le (hd c hc))
  | binary hm hne hd =>
    rcases List.mem_cons.mp hc with rfl | hc
    · rcases hm with rfl | rfl <;> decide
    · rcases hd c hc with rfl | rfl <;> decide
  | name hf hr =>
    left
    refine Nat.not_lt.mp fun hlt => ?_
    rcases (hr c hc).1 with hl | hl | rfl
    · rw [isLetter_of_le (by omega)] at hl
      exact Bool.false_ne_true hl
    · rw [isNumeral_of_lt (by omega)] at hl
      exact Bool.false_ne_true hl
    · exact absurd hlt (by decide)
  | letter => exact absurd hc List.not_mem_nil
  | symbol h => rcases Symbol.text_tail h c hc with rfl | rfl | rfl <;> decide

end Pattern

/-! ## Longest matches -/

/-- A text has at most one longest match. -/
theorem LongestMatch.unique {text slice slice' : List Char} {p p' : Pattern}
    (h : LongestMatch text p slice) (h' : LongestMatch text p' slice') :
    p = p' ∧ slice = slice' := by
  have hlen : slice.length = slice'.length :=
    Nat.le_antisymm (h'.longest _ _ h.isMatch h.begins) (h.longest _ _ h'.isMatch h'.begins)
  have hslice : slice = slice' := by
    rw [List.prefix_iff_eq_take.mp h.begins, hlen, ← List.prefix_iff_eq_take.mp h'.begins]
  subst hslice
  exact ⟨h.isMatch.unique h'.isMatch, rfl⟩

/-- Whether a token ends in front of this text, whatever the token is. -/
def Ends (rest : List Char) : Prop := ∀ c ∈ rest.head?, c.toNat < 45 ∧ c ≠ '+'

theorem ends_nil : Ends [] := fun _ hc => absurd hc (Option.not_mem_none _)

theorem ends_cons {c : Char} (h : c.toNat < 45 ∧ c ≠ '+') (rest : List Char) : Ends (c :: rest) := by
  rintro d ⟨⟩
  exact h

/-- **A match in front of a character that no match goes on with is the longest.** -/
theorem longestMatch_append {p : Pattern} {slice rest : List Char} (h : p.Matches slice)
    (hr : Ends rest) : LongestMatch (slice ++ rest) p slice where
  begins := List.prefix_append slice rest
  isMatch := h
  longest := by
    intro q other hq hother
    refine Nat.not_lt.mp fun hlt => ?_
    obtain ⟨more, rfl⟩ := List.prefix_of_prefix_length_le (List.prefix_append slice rest) hother
      (Nat.le_of_lt hlt)
    have hmore : more <+: rest := (List.prefix_append_right_inj slice).mp hother
    obtain ⟨first, others, rfl⟩ := List.exists_cons_of_ne_nil h.ne_nil
    cases more with
    | nil =>
      rw [List.append_nil] at hlt
      exact Nat.lt_irrefl _ hlt
    | cons c more =>
      obtain ⟨tail, rfl⟩ := hmore
      have hin := hq.ending c (List.mem_append_right others List.mem_cons_self)
      have hend := hr c rfl
      rcases hin with hin | hin
      · omega
      · exact hend.2 hin

end Reckon
