import Reckon.Proofs.Token.Pattern

/-!
# The measured lexeme is the longest match

Every measuring function of `Reckon.Token.Lexeme` gives the length of the longest prefix that
matches its patterns (`Longest`), 0 if there is none. The first character of a text tells which
kind of pattern can match at all, and among the numbers a radix literal is longer than the zero
it begins with, so what `Lexeme.ofHead?` picks is the longest match of all patterns.

Results:
* `longest_decimalLength`, `longest_hexadecimal`, `longest_binary`, `longest_identifierLength`,
  `longest_symbol`: each measure is exact.
* `found_ofHead?`: what each answer of `Lexeme.ofHead?` says about the longest match.
* `ofHead?_of_longestMatch`: the longest match determines the answer.
-/

namespace Reckon

open Decimal (AllDigits Exponent Mantissa Literal isExponentMark)

/-- `n` is the length of the longest prefix of the text with the property, 0 if no prefix has
it. -/
structure Longest (P : List Char → Prop) (text : List Char) (n : Nat) : Prop where
  reached : n ≠ 0 → n ≤ text.length ∧ P (text.take n)
  bound : ∀ slice, P slice → slice <+: text → slice.length ≤ n

theorem Longest.eq_nil {P : List Char → Prop} {text slice : List Char} (h : Longest P text 0)
    (hs : P slice) (hp : slice <+: text) : slice = [] :=
  List.length_eq_zero_iff.mp (Nat.le_zero.mp (h.bound slice hs hp))

theorem Longest.length_take {P : List Char → Prop} {text : List Char} {n : Nat}
    (h : Longest P text n) (h0 : n ≠ 0) : (text.take n).length = n :=
  List.length_take_of_le (h.reached h0).1

/-! ## Runs of characters -/

theorem length_le_takeWhile {p : Char → Bool} {slice text : List Char}
    (h : ∀ c ∈ slice, p c = true) (hs : slice <+: text) :
    slice.length ≤ (text.takeWhile p).length := by
  obtain ⟨tail, rfl⟩ := hs
  rw [List.takeWhile_append_of_pos h, List.length_append]
  exact Nat.le_add_right _ _

theorem take_length_takeWhile (p : Char → Bool) (text : List Char) :
    text.take (text.takeWhile p).length = text.takeWhile p :=
  (List.prefix_iff_eq_take.mp (List.takeWhile_prefix p)).symm

theorem length_takeWhile_le (p : Char → Bool) (text : List Char) :
    (text.takeWhile p).length ≤ text.length :=
  (List.takeWhile_prefix p).length_le

theorem of_mem_takeWhile {p : Char → Bool} {text : List Char} {c : Char}
    (h : c ∈ text.takeWhile p) : p c = true :=
  List.all_eq_true.mp List.all_takeWhile c h

namespace Lexeme

/-- A run of digits ends in front of a character that is none. -/
theorem digitRun_append {whole rest : List Char} (hw : AllDigits whole)
    (hr : ∀ c ∈ rest.head?, c.isDigit = false) : digitRun (whole ++ rest) = whole.length := by
  rw [digitRun, List.takeWhile_append_of_pos hw]
  cases rest with
  | nil => simp
  | cons c rest =>
    have hc : c.isDigit = false := hr c rfl
    simp [hc]

/-- Every text is a run of digits and a rest that begins with none. -/
theorem exists_digitRun (text : List Char) : ∃ whole rest, text = whole ++ rest ∧
    AllDigits whole ∧ (∀ c ∈ rest.head?, c.isDigit = false) := by
  refine ⟨text.takeWhile Char.isDigit, text.dropWhile Char.isDigit,
    List.takeWhile_append_dropWhile.symm, fun c hc => of_mem_takeWhile hc, fun c hc => ?_⟩
  have h := List.head?_dropWhile_not Char.isDigit text
  rw [Option.mem_def.mp hc] at h
  exact h

/-! ## Decimal literals -/

theorem exponentLength_of_not_mark {rest : List Char}
    (h : ∀ c ∈ rest.head?, isExponentMark c = false) : exponentLength rest = 0 := by
  cases rest with
  | nil => rfl
  | cons c rest =>
    have hc : isExponentMark c = false := h c rfl
    simp [exponentLength, hc]

theorem exponentLength_signed {mark sign : Char} {rest : List Char}
    (hm : isExponentMark mark = true) (hs : sign = '+' ∨ sign = '-') :
    exponentLength (mark :: sign :: rest) = if digitRun rest = 0 then 0 else 2 + digitRun rest := by
  rcases hs with rfl | rfl <;> simp [exponentLength, hm]

theorem exponentLength_unsigned {mark : Char} {rest : List Char} (hm : isExponentMark mark = true)
    (hr : ∀ c ∈ rest.head?, c ≠ '+' ∧ c ≠ '-') :
    exponentLength (mark :: rest) = if digitRun rest = 0 then 0 else 1 + digitRun rest := by
  simp only [exponentLength, if_pos hm]
  split
  · exact absurd rfl (hr '+' rfl).1
  · exact absurd rfl (hr '-' rfl).2
  · rfl

theorem isExponentMark_iff {c : Char} : isExponentMark c = true ↔ c = 'e' ∨ c = 'E' := by
  simp [isExponentMark]

theorem digitRun_le (text : List Char) : digitRun text ≤ text.length :=
  length_takeWhile_le Char.isDigit text

theorem take_digitRun {text : List Char} (h : digitRun text ≠ 0) :
    text.take (digitRun text) ≠ [] ∧ AllDigits (text.take (digitRun text)) := by
  unfold digitRun at h ⊢
  rw [take_length_takeWhile]
  exact ⟨fun hnil => h (by rw [hnil]; rfl), fun c hc => of_mem_takeWhile hc⟩

/-- What is measured as an exponent part is one, possibly empty. -/
theorem exponent_take (text : List Char) : exponentLength text ≤ text.length ∧
    ∃ n, Exponent (text.take (exponentLength text)) n := by
  have absent : ∀ text : List Char, 0 ≤ text.length ∧ ∃ n, Exponent (text.take 0) n :=
    fun _ => ⟨Nat.zero_le _, 0, Exponent.absent⟩
  cases text with
  | nil => exact absent []
  | cons mark rest =>
    by_cases hm : isExponentMark mark = true
    · have hmark := isExponentMark_iff.mp hm
      by_cases hs : ∃ sign more, rest = sign :: more ∧ (sign = '+' ∨ sign = '-')
      · obtain ⟨sign, more, rfl, hsign⟩ := hs
        rw [exponentLength_signed hm hsign]
        by_cases h0 : digitRun more = 0
        · rw [if_pos h0]
          exact absent _
        · obtain ⟨hne, hd⟩ := take_digitRun h0
          have hle := digitRun_le more
          rw [if_neg h0, Nat.add_comm, List.take_succ_cons, List.take_succ_cons]
          refine ⟨by simpa using hle, ?_⟩
          rcases hsign with rfl | rfl
          · exact ⟨_, Exponent.plus hmark hne hd⟩
          · exact ⟨_, Exponent.minus hmark hne hd⟩
      · have hr : ∀ c ∈ rest.head?, c ≠ '+' ∧ c ≠ '-' := by
          intro c hc
          obtain ⟨more, rfl⟩ := List.head?_eq_some_iff.mp hc
          exact ⟨fun h => hs ⟨c, more, rfl, Or.inl h⟩, fun h => hs ⟨c, more, rfl, Or.inr h⟩⟩
        rw [exponentLength_unsigned hm hr]
        by_cases h0 : digitRun rest = 0
        · rw [if_pos h0]
          exact absent _
        · obtain ⟨hne, hd⟩ := take_digitRun h0
          have hle := digitRun_le rest
          rw [if_neg h0, Nat.add_comm, List.take_succ_cons]
          exact ⟨by simpa using hle, _, Exponent.unsigned hmark hne hd⟩
    · have hr : ∀ c ∈ (mark :: rest).head?, isExponentMark c = false := by
        rintro c ⟨⟩
        exact Bool.eq_false_iff.mpr hm
      rw [exponentLength_of_not_mark hr]
      exact absent _

/-- No exponent part is longer than the measured one. -/
theorem exponent_bound {part text : List Char} {n : Int} (h : Exponent part n)
    (hp : part <+: text) : part.length ≤ exponentLength text := by
  obtain ⟨tail, rfl⟩ := hp
  have digits : ∀ {digits : List Char}, digits ≠ [] → AllDigits digits →
      digits.length ≤ digitRun (digits ++ tail) ∧ digitRun (digits ++ tail) ≠ 0 := by
    intro digits hne hd
    have hle := length_le_takeWhile hd (List.prefix_append digits tail)
    have hpos := List.length_pos_iff.mpr hne
    exact ⟨hle, by unfold digitRun; omega⟩
  cases h with
  | absent => exact Nat.zero_le _
  | @unsigned mark ds hm hne hd =>
    obtain ⟨hle, h0⟩ := digits hne hd
    have hr : ∀ c ∈ (ds ++ tail).head?, c ≠ '+' ∧ c ≠ '-' := by
      obtain ⟨d, more, rfl⟩ := List.exists_cons_of_ne_nil hne
      rintro c ⟨⟩
      have hc := hd d List.mem_cons_self
      constructor
      · rintro rfl; exact absurd hc (by decide)
      · rintro rfl; exact absurd hc (by decide)
    rw [List.cons_append, exponentLength_unsigned (isExponentMark_iff.mpr hm) hr, if_neg h0,
      List.length_cons]
    omega
  | plus hm hne hd =>
    obtain ⟨hle, h0⟩ := digits hne hd
    rw [List.cons_append, List.cons_append,
      exponentLength_signed (isExponentMark_iff.mpr hm) (Or.inl rfl), if_neg h0, List.length_cons,
      List.length_cons]
    omega
  | minus hm hne hd =>
    obtain ⟨hle, h0⟩ := digits hne hd
    rw [List.cons_append, List.cons_append,
      exponentLength_signed (isExponentMark_iff.mpr hm) (Or.inr rfl), if_neg h0, List.length_cons,
      List.length_cons]
    omega

/-- Digits with an exponent part behind them are no longer than the measured ones. -/
theorem digits_exponent_bound {digits part text : List Char} {n : Int} (hd : AllDigits digits)
    (he : Exponent part n) (hp : digits ++ part <+: text) :
    digits.length + part.length ≤ digitRun text + exponentLength (text.drop (digitRun text)) := by
  obtain ⟨tail, rfl⟩ := hp
  rcases he.eq_nil_or_mark with rfl | ⟨mark, rest, rfl, hmark⟩
  · have hle := length_le_takeWhile hd (List.prefix_append digits ([] ++ tail))
    rw [List.append_assoc]
    unfold digitRun
    simp only [List.length_nil]
    omega
  · have hr : ∀ c ∈ (mark :: rest ++ tail).head?, c.isDigit = false := by
      rintro c ⟨⟩
      rcases isExponentMark_iff.mp hmark with rfl | rfl <;> rfl
    have hbound := exponent_bound he (List.prefix_append (mark :: rest) tail)
    rw [List.append_assoc, digitRun_append hd hr, List.drop_left]
    omega

theorem decimalLength_point {whole : List Char} (hw : AllDigits whole) (rest : List Char) :
    decimalLength (whole ++ '.' :: rest) =
      if whole = [] ∧ digitRun rest = 0 then 0
      else whole.length + 1 + digitRun rest + exponentLength (rest.drop (digitRun rest)) := by
  have hr : ∀ c ∈ ('.' :: rest).head?, c.isDigit = false := by
    rintro c ⟨⟩
    rfl
  unfold decimalLength
  rw [digitRun_append hw hr]
  simp only [List.drop_left, List.length_eq_zero_iff]

theorem decimalLength_integer {whole rest : List Char} (hw : AllDigits whole)
    (hr : ∀ c ∈ rest.head?, c.isDigit = false ∧ c ≠ '.') :
    decimalLength (whole ++ rest) =
      if whole = [] then 0 else whole.length + exponentLength rest := by
  unfold decimalLength
  rw [digitRun_append hw fun c hc => (hr c hc).1]
  simp only [List.drop_left, List.length_eq_zero_iff]
  split
  · exact absurd rfl (hr '.' rfl).2
  · rfl

/-- A point behind digits stands at the end of the run of digits. -/
theorem eq_of_point {whole digits rest tail : List Char} (hw : AllDigits whole)
    (hr : ∀ c ∈ rest.head?, c.isDigit = false) (hd : AllDigits digits)
    (hp : digits ++ '.' :: tail <+: whole ++ rest) : digits = whole ∧ '.' :: tail <+: rest := by
  obtain ⟨more, hmore⟩ := hp
  have hlen : digits.length = whole.length := by
    rw [← digitRun_append hw hr, ← hmore, List.append_assoc]
    exact (digitRun_append hd (by rintro c ⟨⟩; rfl)).symm
  rw [List.append_assoc] at hmore
  obtain ⟨rfl, hrest⟩ := List.append_inj hmore hlen
  exact ⟨rfl, more, hrest⟩

/-- Behind digits, a point, the run of digits and the exponent part there are a literal, unless the
point has no digit on either side. -/
theorem decimal_take_point {whole : List Char} (hw : AllDigits whole) {fraction : List Char}
    (hnot : ¬ (whole = [] ∧ digitRun fraction = 0)) :
    decimalLength (whole ++ '.' :: fraction) ≤ (whole ++ '.' :: fraction).length ∧
      Pattern.Matches .decimal ((whole ++ '.' :: fraction).take
        (decimalLength (whole ++ '.' :: fraction))) := by
  obtain ⟨hle, n, he⟩ := exponent_take (fraction.drop (digitRun fraction))
  have hrunle := digitRun_le fraction
  have hf : AllDigits (fraction.take (digitRun fraction)) := by
    unfold digitRun
    rw [take_length_takeWhile]
    exact fun c hc => of_mem_takeWhile hc
  have hne : whole ++ fraction.take (digitRun fraction) ≠ [] := by
    intro h
    obtain ⟨hwhole, hfraction⟩ := List.append_eq_nil_iff.mp h
    refine hnot ⟨hwhole, Nat.eq_zero_of_not_pos fun hpos => ?_⟩
    exact (take_digitRun (Nat.ne_of_gt hpos)).1 hfraction
  have htake : (whole ++ '.' :: fraction).take
      (whole.length + 1 + digitRun fraction +
        exponentLength (fraction.drop (digitRun fraction))) =
      (whole ++ '.' :: fraction.take (digitRun fraction)) ++
        (fraction.drop (digitRun fraction)).take
          (exponentLength (fraction.drop (digitRun fraction))) := by
    rw [Nat.add_assoc, Nat.add_assoc, List.take_length_add_append, Nat.add_comm 1,
      List.take_succ_cons, List.take_add, List.append_assoc, List.cons_append]
  rw [decimalLength_point hw, if_neg hnot, htake]
  refine ⟨?_, Pattern.Matches.decimal (Literal.mk (Mantissa.point hne hw hf) he)⟩
  rw [List.length_drop] at hle
  rw [List.length_append, List.length_cons]
  omega

theorem longest_decimalLength_point {whole : List Char} (hw : AllDigits whole)
    (fraction : List Char) : Longest (Pattern.Matches .decimal) (whole ++ '.' :: fraction)
      (decimalLength (whole ++ '.' :: fraction)) := by
  have hr : ∀ c ∈ ('.' :: fraction).head?, c.isDigit = false := by
    rintro c ⟨⟩
    rfl
  constructor
  · intro h0
    refine decimal_take_point hw fun h => h0 ?_
    rw [decimalLength_point hw, if_pos h]
  · rintro slice ⟨hm, he⟩ hp
    rw [decimalLength_point hw]
    cases hm with
    | integer hne hw' =>
      have hbound := digits_exponent_bound hw' he hp
      have hzero : exponentLength ('.' :: fraction) = 0 :=
        exponentLength_of_not_mark (by rintro c ⟨⟩; rfl)
      rw [digitRun_append hw hr, List.drop_left, hzero] at hbound
      have hpos := List.length_pos_iff.mpr hne
      have hwhole : ¬ (whole = [] ∧ digitRun fraction = 0) := by
        rintro ⟨rfl, -⟩
        simp only [List.length_nil] at hbound
        omega
      rw [if_neg hwhole, List.length_append]
      omega
    | point hne hd hf =>
      rw [List.append_assoc, List.cons_append] at hp
      obtain ⟨hdigits, hrest⟩ := eq_of_point hw hr hd hp
      have hp' := (List.cons_prefix_cons.mp hrest).2
      have hbound := digits_exponent_bound hf he hp'
      have hplaces := length_le_takeWhile hf ((List.prefix_append _ _).trans hp')
      have hnot : ¬ (whole = [] ∧ digitRun fraction = 0) := by
        rintro ⟨hwhole, h0⟩
        have hpos := List.length_pos_iff.mpr hne
        unfold digitRun at h0
        rw [hdigits, hwhole, List.nil_append] at hpos
        omega
      rw [if_neg hnot, hdigits, List.length_append, List.length_append, List.length_cons]
      omega

theorem longest_decimalLength_integer {whole rest : List Char} (hw : AllDigits whole)
    (hr : ∀ c ∈ rest.head?, c.isDigit = false ∧ c ≠ '.') :
    Longest (Pattern.Matches .decimal) (whole ++ rest) (decimalLength (whole ++ rest)) := by
  have hrun := digitRun_append hw fun c hc => (hr c hc).1
  rw [decimalLength_integer hw hr]
  obtain ⟨hle, n, he⟩ := exponent_take rest
  constructor
  · intro h0
    have hne : whole ≠ [] := fun h => h0 (if_pos h)
    rw [if_neg hne, List.take_length_add_append, List.length_append]
    exact ⟨by omega, Pattern.Matches.decimal (Literal.mk (Mantissa.integer hne hw) he)⟩
  · rintro slice ⟨hm, he'⟩ hp
    cases hm with
    | integer hne hw' =>
      have hbound := digits_exponent_bound hw' he' hp
      have hwhole := length_le_takeWhile hw' ((List.prefix_append _ _).trans hp)
      unfold digitRun at hrun
      have hpos := List.length_pos_iff.mpr hne
      have hne' : whole ≠ [] := List.length_pos_iff.mp (by omega)
      rw [digitRun, hrun, List.drop_left] at hbound
      rw [if_neg hne', List.length_append]
      exact hbound
    | point hne hd hf =>
      rw [List.append_assoc, List.cons_append] at hp
      obtain ⟨more, rfl⟩ := (eq_of_point hw (fun c hc => (hr c hc).1) hd hp).2
      exact absurd rfl (hr '.' rfl).2

/-- **The measured decimal literal is the longest.** -/
theorem longest_decimalLength (text : List Char) :
    Longest (Pattern.Matches .decimal) text (decimalLength text) := by
  obtain ⟨whole, rest, rfl, hw, hr⟩ := exists_digitRun text
  by_cases hpoint : ∃ fraction, rest = '.' :: fraction
  · obtain ⟨fraction, rfl⟩ := hpoint
    exact longest_decimalLength_point hw fraction
  · refine longest_decimalLength_integer hw fun c hc => ⟨hr c hc, ?_⟩
    rintro rfl
    obtain ⟨fraction, rfl⟩ := List.head?_eq_some_iff.mp hc
    exact hpoint ⟨fraction, rfl⟩

/-! ## Literals in a radix -/

theorem toNat_toLower (c : Char) : c.toLower.toNat =
    if 65 ≤ c.toNat ∧ c.toNat ≤ 90 then c.toNat + 32 else c.toNat := by
  have hA : 'A'.val.toNat = 65 := rfl
  have hZ : 'Z'.val.toNat = 90 := rfl
  unfold Char.toLower
  simp only [ge_iff_le, UInt32.le_iff_toNat_le, hA, hZ, Char.toNat_val]
  split
  · have h32 : ('a'.val - 'A'.val).toNat = 32 := rfl
    rw [Char.toNat_mk, UInt32.toNat_add, Char.toNat_val, h32]
    exact Nat.mod_eq_of_lt (by omega)
  · rfl

theorem toLower_eq_iff {c lower upper : Char} (hl : 97 ≤ lower.toNat ∧ lower.toNat ≤ 122)
    (hu : upper.toNat + 32 = lower.toNat) : c.toLower = lower ↔ c = lower ∨ c = upper := by
  rw [← Char.toNat_inj, ← Char.toNat_inj, ← Char.toNat_inj, toNat_toLower]
  split <;> omega

theorem isDigitIn_sixteen {c : Char} : isDigitIn 16 c = true ↔ IsHexDigit c := by
  unfold isDigitIn digitOf? IsHexDigit
  simp only [Char.le_def, UInt32.le_iff_toNat_le, Char.toNat_val]
  grind

theorem isDigitIn_two {c : Char} : isDigitIn 2 c = true ↔ c = '0' ∨ c = '1' := by
  unfold isDigitIn digitOf?
  simp only [Char.le_def, UInt32.le_iff_toNat_le, Char.toNat_val, ← Char.toNat_inj]
  grind

/-- A radix literal of any radix is measured as the longest. -/
theorem longest_radixLength {P : List Char → Prop} {radix : Nat} {letter : Char}
    (hP : ∀ slice, P slice ↔ ∃ mark digits, slice = '0' :: mark :: digits ∧
      mark.toLower = letter ∧ digits ≠ [] ∧ ∀ c ∈ digits, isDigitIn radix c = true)
    (text : List Char) : Longest P text (radixLength radix letter text) := by
  constructor
  · intro h0
    unfold radixLength at h0 ⊢
    split at h0
    · next mark rest =>
      have h : mark.toLower = letter ∧ (rest.takeWhile (isDigitIn radix)).length ≠ 0 :=
        Decidable.byContradiction fun h => h0 (if_neg h)
      have hle := length_takeWhile_le (isDigitIn radix) rest
      simp only [if_pos h]
      rw [Nat.add_comm, List.take_succ_cons, List.take_succ_cons, take_length_takeWhile]
      refine ⟨by simpa using hle, (hP _).mpr ⟨mark, _, rfl, h.1, ?_, fun c => of_mem_takeWhile⟩⟩
      exact fun hnil => h.2 (congrArg List.length hnil)
    · exact absurd rfl h0
  · intro slice hs hp
    obtain ⟨mark, digits, rfl, hm, hne, hd⟩ := (hP _).mp hs
    obtain ⟨tail, rfl⟩ := hp
    have hle := length_le_takeWhile hd (List.prefix_append digits tail)
    have hpos := List.length_pos_iff.mpr hne
    simp only [List.cons_append, radixLength]
    rw [if_pos ⟨hm, by omega⟩, List.length_cons, List.length_cons]
    omega

/-- **The measured hexadecimal literal is the longest.** -/
theorem longest_hexadecimal (text : List Char) :
    Longest (Pattern.Matches .hexadecimal) text (radixLength 16 'x' text) := by
  have hx : ∀ c : Char, c.toLower = 'x' ↔ c = 'x' ∨ c = 'X' :=
    fun c => toLower_eq_iff (by decide) rfl
  refine longest_radixLength (fun slice => ⟨?_, ?_⟩) text
  · intro h
    cases h with
    | hexadecimal hm hne hd =>
      exact ⟨_, _, rfl, (hx _).mpr hm, hne, fun c hc => isDigitIn_sixteen.mpr (hd c hc)⟩
  · rintro ⟨mark, digits, rfl, hm, hne, hd⟩
    exact .hexadecimal ((hx _).mp hm) hne fun c hc => isDigitIn_sixteen.mp (hd c hc)

/-- **The measured binary literal is the longest.** -/
theorem longest_binary (text : List Char) :
    Longest (Pattern.Matches .binary) text (radixLength 2 'b' text) := by
  have hb : ∀ c : Char, c.toLower = 'b' ↔ c = 'b' ∨ c = 'B' :=
    fun c => toLower_eq_iff (by decide) rfl
  refine longest_radixLength (fun slice => ⟨?_, ?_⟩) text
  · intro h
    cases h with
    | binary hm hne hd =>
      exact ⟨_, _, rfl, (hb _).mpr hm, hne, fun c hc => isDigitIn_two.mpr (hd c hc)⟩
  · rintro ⟨mark, digits, rfl, hm, hne, hd⟩
    exact .binary ((hb _).mp hm) hne fun c hc => isDigitIn_two.mp (hd c hc)

/-! ## Identifiers -/

theorem standsAlone_iff {c : Char} : standsAlone c = true ↔ IsGreek c ∨ c = '∑' ∨ c = '∏' := by
  simp only [standsAlone, IsGreek, Bool.or_eq_true, decide_eq_true_eq, or_assoc]

theorem startsName_iff {c : Char} : startsName c = true ↔
    (Text.isLetter c = true ∨ c = '_') ∧ ¬ IsGreek c := by
  have hs : standsAlone c = true ↔ _ := standsAlone_iff
  rw [startsName, Bool.and_eq_true, Bool.or_eq_true, decide_eq_true_eq, Bool.not_eq_true',
    ← Bool.not_eq_true, hs]
  refine and_congr_right fun hl => not_congr (or_iff_left ?_)
  rintro (rfl | rfl) <;> exact absurd hl (by decide +kernel)

theorem continuesName_iff {c : Char} : continuesName c = true ↔
    (Text.isLetter c = true ∨ Text.isNumeral c = true ∨ c = '_') ∧ ¬ IsGreek c := by
  have hs : standsAlone c = true ↔ _ := standsAlone_iff
  rw [continuesName, Bool.and_eq_true, Bool.or_eq_true, Bool.or_eq_true, decide_eq_true_eq,
    Bool.not_eq_true', ← Bool.not_eq_true, hs, or_assoc]
  refine and_congr_right fun hl => not_congr (or_iff_left ?_)
  rintro (rfl | rfl) <;> exact absurd hl (by decide +kernel)

theorem matches_name_of_all {first : Char} {rest : List Char} (hf : startsName first = true)
    (hr : rest.all continuesName = true) : Pattern.Matches .name (first :: rest) :=
  .name (startsName_iff.mp hf) fun c hc => continuesName_iff.mp (List.all_eq_true.mp hr c hc)

/-- **The measured identifier is the longest.** -/
theorem longest_identifierLength (text : List Char) :
    Longest (fun slice => Pattern.Matches .name slice ∨ Pattern.Matches .letter slice) text
      (identifierLength text) := by
  constructor
  · intro h0
    cases text with
    | nil => exact absurd rfl h0
    | cons c rest =>
      have hle := length_takeWhile_le continuesName rest
      by_cases ha : standsAlone c = true
      · simp only [identifierLength, if_pos ha]
        exact ⟨Nat.le_add_left 1 _, Or.inr (.letter (standsAlone_iff.mp ha))⟩
      · by_cases hs : startsName c = true
        · simp only [identifierLength, if_neg ha, if_pos hs]
          rw [Nat.add_comm, List.take_succ_cons, take_length_takeWhile, List.length_cons]
          refine ⟨by omega, Or.inl (.name (startsName_iff.mp hs) fun d hd => ?_)⟩
          exact continuesName_iff.mp (of_mem_takeWhile hd)
        · simp only [identifierLength, if_neg ha, if_neg hs] at h0
          exact absurd rfl h0
  · rintro slice (hs | hs) ⟨tail, rfl⟩
    · cases hs with
      | @name first rest hf hr =>
        have ha : ¬ standsAlone first = true :=
          fun h => Pattern.not_letter_of_name hf (standsAlone_iff.mp h)
        have hc : ∀ d ∈ rest, continuesName d = true := fun d hd => continuesName_iff.mpr (hr d hd)
        have hle := length_le_takeWhile hc (List.prefix_append rest tail)
        simp only [List.cons_append, identifierLength, if_neg ha, if_pos (startsName_iff.mpr hf),
          List.length_cons]
        omega
    · cases hs with
      | letter hc =>
        simp only [List.cons_append, identifierLength, if_pos (standsAlone_iff.mpr hc),
          List.length_singleton]
        exact Nat.le_refl 1

/-! ## Symbols -/

/-- A symbol that is found is written at the beginning of the text. -/
theorem text_prefix_of_ofHead? {text : List Char} {s : Symbol} (h : Symbol.ofHead? text = some s) :
    s.text.toList <+: text := by
  unfold Symbol.ofHead? at h
  split at h
  all_goals first
    | exact absurd h (Option.some_ne_none s).symm
    | (obtain rfl := Option.some.inj h; exact ⟨_, rfl⟩)

/-- In front of a character that longer symbols begin with too, a symbol is found in any case. -/
theorem ofHead?_shared {c : Char} (hc : c ∈ ['<', '>', '=', '!']) (tail : List Char) :
    ∃ t, Symbol.ofHead? (c :: tail) = some t ∧ 1 ≤ t.text.toList.length := by
  simp only [List.mem_cons, List.not_mem_nil, or_false] at hc
  rcases hc with rfl | rfl | rfl | rfl
  all_goals
    unfold Symbol.ofHead?
    split <;> first | exact ⟨_, rfl, by decide⟩ | simp_all

/-- Where a symbol is written, one at least as long is found. -/
theorem ofHead?_of_text_prefix {text : List Char} {s : Symbol} (h : s.text.toList <+: text) :
    ∃ t, Symbol.ofHead? text = some t ∧ s.text.toList.length ≤ t.text.toList.length := by
  obtain ⟨tail, rfl⟩ := h
  -- four symbols are the beginning of longer ones, so for them it matters what follows
  cases s
  case less | greater | equals | bang => exact ofHead?_shared (by decide) tail
  all_goals exact ⟨_, rfl, by decide⟩

/-- **The measured symbol is the longest.** -/
theorem longest_symbol (text : List Char) :
    Longest (fun slice => ∃ s, Pattern.Matches (.symbol s) slice) text
      (((Symbol.ofHead? text).map fun s => s.text.length).getD 0) := by
  constructor
  · intro h0
    cases h : Symbol.ofHead? text with
    | none => rw [h] at h0; exact absurd rfl h0
    | some s =>
      have hp := text_prefix_of_ofHead? h
      rw [Option.map_some, Option.getD_some, ← String.length_toList,
        ← List.prefix_iff_eq_take.mp hp]
      exact ⟨hp.length_le, s, .symbol rfl⟩
  · rintro slice ⟨s, hs⟩ hp
    cases hs with
    | symbol h =>
      subst h
      obtain ⟨t, ht, hle⟩ := ofHead?_of_text_prefix hp
      rw [ht, Option.map_some, Option.getD_some, ← String.length_toList]
      exact hle

/-! ## The longest lexeme -/

/-- A match is the longest of all if it is the longest of its kind. -/
theorem longestMatch_of_kind {text slice : List Char} {p : Pattern} (hm : p.Matches slice)
    (hp : slice <+: text) (h : ∀ (q : Pattern) (other : List Char), q.kind = p.kind →
      q.Matches other → other <+: text → other.length ≤ slice.length) :
    LongestMatch text p slice where
  begins := hp
  isMatch := hm
  longest q other hq ho := h q other (hq.kind_eq hm ho hp) hq ho

/-- What a search among the patterns of some kinds finds at the beginning of a text. -/
inductive Found (K : Pattern.Kind → Prop) (text : List Char) : Option Lexeme → Prop
  | token {p : Pattern} {slice : List Char} {t : Token} {n : Nat} (h : LongestMatch text p slice)
      (hn : slice.length = n) (ht : p.token? slice = some t) : Found K text (some (.token t n))
  | malformed {p : Pattern} {slice : List Char} {n : Nat} (h : LongestMatch text p slice)
      (hn : slice.length = n) (ht : p.token? slice = none) : Found K text (some (.malformed n))
  | nothing (h : ∀ (p : Pattern) (slice : List Char), K p.kind → p.Matches slice →
      ¬ slice <+: text) : Found K text none

theorem Found.or {K L : Pattern.Kind → Prop} {text : List Char} {a b : Option Lexeme}
    (ha : Found K text a) (hb : Found L text b) : Found (fun k => K k ∨ L k) text (a.or b) := by
  cases ha with
  | token h hn ht => exact .token h hn ht
  | malformed h hn ht => exact .malformed h hn ht
  | nothing h =>
    cases hb with
    | token h' hn ht => exact .token h' hn ht
    | malformed h' hn ht => exact .malformed h' hn ht
    | nothing h' => exact .nothing fun p slice hk => hk.elim (h p slice) (h' p slice)

theorem found_symbol (text : List Char) : Found (· = .symbol) text (symbol? text) := by
  have hlongest := longest_symbol text
  unfold symbol?
  cases hs : Symbol.ofHead? text with
  | none =>
    rw [hs, Option.map_none, Option.getD_none] at hlongest
    refine .nothing fun p slice hk hm hp => ?_
    cases p <;> cases hk
    exact hm.ne_nil (hlongest.eq_nil ⟨_, hm⟩ hp)
  | some s =>
    rw [hs, Option.map_some, Option.getD_some, ← String.length_toList] at hlongest
    have hmatch : LongestMatch text (.symbol s) s.text.toList := by
      refine longestMatch_of_kind (.symbol rfl) (text_prefix_of_ofHead? hs) ?_
      intro q other hk hm hp
      cases q <;> cases hk
      exact hlongest.bound other ⟨_, hm⟩ hp
    exact .token hmatch String.length_toList rfl

theorem found_identifier (text : List Char) : Found (· = .word) text (identifier? text) := by
  have hlongest := longest_identifierLength text
  have hword : ∀ {p : Pattern} {slice : List Char}, p.kind = .word → p.Matches slice →
      Pattern.Matches .name slice ∨ Pattern.Matches .letter slice := by
    intro p slice hk hm
    cases p <;> cases hk
    · exact Or.inl hm
    · exact Or.inr hm
  unfold identifier?
  by_cases h0 : identifierLength text = 0
  · rw [h0] at hlongest
    simp only [h0, ne_eq, not_true_eq_false, if_false]
    exact .nothing fun p slice hk hm hp => hm.ne_nil (hlongest.eq_nil (hword hk hm) hp)
  · simp only [ne_eq, h0, not_false_eq_true, if_true]
    have hlen := hlongest.length_take h0
    have hfound : ∀ p : Pattern, p.kind = .word → p.Matches (text.take (identifierLength text)) →
        LongestMatch text p (text.take (identifierLength text)) := by
      intro p hk hm
      refine longestMatch_of_kind hm (List.take_prefix _ _) fun q other hq hm' hp => ?_
      rw [hlen]
      exact hlongest.bound other (hword (hq.trans hk) hm') hp
    rcases (hlongest.reached h0).2 with hm | hm
    · exact .token (hfound .name rfl hm) hlen rfl
    · exact .token (hfound .letter rfl hm) hlen rfl

/-- In front of the letter of a radix stands the decimal literal `0` and no longer one. -/
theorem literal_length_le {slice digits rest : List Char} {mark : Char} {places : Nat} {n : Int}
    (h : Literal slice digits places n) (hp : slice <+: '0' :: mark :: rest)
    (hm : (mark = 'x' ∨ mark = 'X') ∨ mark = 'b' ∨ mark = 'B') : slice.length ≤ 1 := by
  match slice with
  | [] => exact Nat.zero_le 1
  | [_] => exact Nat.le_refl 1
  | a :: b :: more =>
    obtain ⟨rfl, hb⟩ := List.cons_prefix_cons.mp hp
    obtain ⟨rfl, -⟩ := List.cons_prefix_cons.mp hb
    exact absurd h (Pattern.not_literal_of_radix hm)

/-- A radix literal begins with a zero and the letter of its radix. -/
theorem radix_mark {p : Pattern} {slice : List Char} (hp : p = .hexadecimal ∨ p = .binary)
    (hm : p.Matches slice) : ∃ mark digits, slice = '0' :: mark :: digits ∧
      (p = .hexadecimal ∧ (mark = 'x' ∨ mark = 'X') ∨ p = .binary ∧ (mark = 'b' ∨ mark = 'B')) := by
  rcases hp with rfl | rfl
  · cases hm with
    | hexadecimal hmark => exact ⟨_, _, rfl, Or.inl ⟨rfl, hmark⟩⟩
  · cases hm with
    | binary hmark => exact ⟨_, _, rfl, Or.inr ⟨rfl, hmark⟩⟩

/-- **A radix literal is the longest number.** -/
theorem length_le_of_radix {p q : Pattern} {slice other text : List Char}
    (hp : p = .hexadecimal ∨ p = .binary) (hm : p.Matches slice) (hs : slice <+: text)
    (hk : q.kind = .number) (hq : q.Matches other) (ho : other <+: text) :
    q = p ∨ other.length ≤ slice.length := by
  obtain ⟨mark, digits, rfl, hmark⟩ := radix_mark hp hm
  obtain ⟨tail, rfl⟩ := hs
  by_cases hradix : q = .hexadecimal ∨ q = .binary
  · -- one letter stands for one radix
    obtain ⟨mark', digits', rfl, hmark'⟩ := radix_mark hradix hq
    obtain rfl := (List.cons_prefix_cons.mp (List.cons_prefix_cons.mp ho).2).1
    rcases hmark with ⟨rfl, hx⟩ | ⟨rfl, hb⟩
    · rcases hmark' with ⟨h, -⟩ | ⟨-, hb⟩
      · exact Or.inl h
      · rcases hx with rfl | rfl <;> exact absurd hb (by decide)
    · rcases hmark' with ⟨-, hx⟩ | ⟨h, -⟩
      · rcases hx with rfl | rfl <;> exact absurd hb (by decide)
      · exact Or.inl h
  · cases q with
    | decimal =>
      obtain ⟨h⟩ := hq
      have hle := literal_length_le h ho (hmark.imp And.right And.right)
      refine Or.inr ?_
      rw [List.length_cons, List.length_cons]
      omega
    | hexadecimal => exact absurd (Or.inl rfl) hradix
    | binary => exact absurd (Or.inr rfl) hradix
    | _ => cases hk

theorem decimal_token? (slice : List Char) :
    Pattern.token? .decimal slice = (Decimal.ofLiteral? slice).map .number := by
  rw [Pattern.token?, Decimal.readLiteral]
  cases h : Decimal.ofLiteral? slice <;> rfl

theorem longestMatch_radix {p : Pattern} {text : List Char} {n : Nat}
    (hp : p = .hexadecimal ∨ p = .binary) (h : Longest p.Matches text n) (h0 : n ≠ 0) :
    LongestMatch text p (text.take n) := by
  have hm := (h.reached h0).2
  refine longestMatch_of_kind hm (List.take_prefix n text) fun q other hq hm' ho => ?_
  have hk : q.kind = .number := by
    rcases hp with rfl | rfl <;> exact hq
  rcases length_le_of_radix hp hm (List.take_prefix n text) hk hm' ho with rfl | hle
  · rw [h.length_take h0]
    exact h.bound other hm' ho
  · exact hle

/-- Where no radix literal stands, the longest number is a decimal literal. -/
theorem found_decimal {text : List Char} (h16 : radixLength 16 'x' text = 0)
    (h2 : radixLength 2 'b' text = 0) : Found (· = .number) text (number? text) := by
  have hhex := longest_hexadecimal text
  have hbin := longest_binary text
  have hdec := longest_decimalLength text
  rw [h16] at hhex
  rw [h2] at hbin
  unfold number?
  by_cases h10 : decimalLength text = 0
  · rw [h10] at hdec
    simp only [h16, h2, h10, ne_eq, not_true_eq_false, if_false]
    refine .nothing fun p slice hk hm hp => hm.ne_nil ?_
    cases p with
    | decimal => exact hdec.eq_nil hm hp
    | hexadecimal => exact hhex.eq_nil hm hp
    | binary => exact hbin.eq_nil hm hp
    | _ => cases hk
  · simp only [h16, h2, h10, ne_eq, not_true_eq_false, if_false, not_false_eq_true, if_true]
    have hlen := hdec.length_take h10
    have hmatch : LongestMatch text .decimal (text.take (decimalLength text)) := by
      refine longestMatch_of_kind (hdec.reached h10).2 (List.take_prefix _ _) ?_
      intro q other hk hm hp
      rw [hlen]
      cases q with
      | decimal => exact hdec.bound other hm hp
      | hexadecimal => exact absurd (hhex.eq_nil hm hp) hm.ne_nil
      | binary => exact absurd (hbin.eq_nil hm hp) hm.ne_nil
      | _ => cases hk
    cases hread : Decimal.ofLiteral? (text.take (decimalLength text)) with
    | none => exact .malformed hmatch hlen (by rw [decimal_token?, hread]; rfl)
    | some value => exact .token hmatch hlen (by rw [decimal_token?, hread]; rfl)

theorem found_number (text : List Char) : Found (· = .number) text (number? text) := by
  have hhex := longest_hexadecimal text
  have hbin := longest_binary text
  by_cases h16 : radixLength 16 'x' text = 0
  · by_cases h2 : radixLength 2 'b' text = 0
    · exact found_decimal h16 h2
    · unfold number?
      simp only [h16, ne_eq, not_true_eq_false, if_false, h2, not_false_eq_true, if_true]
      exact .token (longestMatch_radix (Or.inr rfl) hbin h2) (hbin.length_take h2) rfl
  · unfold number?
    simp only [ne_eq, h16, not_false_eq_true, if_true]
    exact .token (longestMatch_radix (Or.inl rfl) hhex h16) (hhex.length_take h16) rfl

/-- **What `ofHead?` finds is the longest match of all patterns.** -/
theorem found_ofHead? (text : List Char) : Found (fun _ => True) text (ofHead? text) := by
  have h := (found_symbol text).or ((found_number text).or (found_identifier text))
  have hall : (fun k : Pattern.Kind => k = .symbol ∨ k = .number ∨ k = .word) = fun _ => True := by
    funext k
    cases k <;> simp
  rw [hall] at h
  exact h

/-- The longest match determines what is found. -/
theorem ofHead?_of_longestMatch {text slice : List Char} {p : Pattern}
    (h : LongestMatch text p slice) : ofHead? text = some (match p.token? slice with
      | some t => token t slice.length
      | none => malformed slice.length) := by
  have hfound := found_ofHead? text
  generalize ofHead? text = o at hfound
  cases hfound with
  | token h' hn ht =>
    obtain ⟨rfl, rfl⟩ := h.unique h'
    rw [ht, hn]
  | malformed h' hn ht =>
    obtain ⟨rfl, rfl⟩ := h.unique h'
    rw [ht, hn]
  | nothing h' => exact absurd h.begins (h' p slice trivial h.isMatch)

end Lexeme

end Reckon
