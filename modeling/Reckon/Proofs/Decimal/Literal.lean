import Reckon.Decimal.Literal

/-!
# The grammar of decimal literals

`Literal text digits places exponent` says that `text` is a decimal literal with these digits, so
many of them behind the point, and this exponent. It is the grammar of literals, stated without
the reader: a mantissa (`Mantissa`), digits with at most one point among or around them, and an
exponent part (`Exponent`), which may be missing.

Results:
* `ofLiteral?_of_literal`: reading a literal gives its digits as the unscaled integer and `places -
  exponent` as the scale, unless one of the exponent and the scale does not fit in 64 bits.
* `ofLiteral?_eq_some_iff`: nothing else is read.
* `Literal.unique`: the digits, the places and the exponent are determined by the text.
* `ofDigits_toDigits`: the digits written for a number stand for that number.
-/

namespace Reckon.Decimal

/-! ## Digits -/

/-- Decimal digits and nothing else. -/
def AllDigits (text : List Char) : Prop := ∀ c ∈ text, c.isDigit = true

theorem allDigits_append {a b : List Char} : AllDigits (a ++ b) ↔ AllDigits a ∧ AllDigits b := by
  simp only [AllDigits, List.mem_append, or_imp, forall_and]

theorem allDigits_toDigits (n : Nat) : AllDigits (Nat.toDigits 10 n) :=
  fun _ hc => Nat.isDigit_of_mem_toDigits (by decide) (by decide) hc

theorem allDigits_replicate_zero (n : Nat) : AllDigits (List.replicate n '0') := by
  intro c hc
  rw [List.eq_of_mem_replicate hc]
  rfl

theorem digitOf?_of_isDigit {c : Char} (h : c.isDigit = true) : digitOf? c = some (c.toNat - 48) := by
  have hc : '0' ≤ c ∧ c ≤ '9' := by
    simpa [Char.isDigit, Char.le_def] using h
  rw [digitOf?, if_pos hc]

theorem ofDigits_eq_ofDigitChars {text : List Char} (h : AllDigits text) :
    ofDigits 10 text = Nat.ofDigitChars 10 text 0 := by
  suffices hs : ∀ (text : List Char) (n : Nat), AllDigits text →
      text.foldl (fun n c => n * 10 + (digitOf? c).getD 0) n = Nat.ofDigitChars 10 text n from
    hs text 0 h
  intro text
  induction text with
  | nil => intro n _; rfl
  | cons c rest ih =>
    intro n hd
    have hc : c.isDigit = true := hd c List.mem_cons_self
    rw [List.foldl_cons, Nat.ofDigitChars_cons, digitOf?_of_isDigit hc, Option.getD_some,
      Nat.mul_comm n 10]
    exact ih _ fun d hd' => hd d (List.mem_cons_of_mem c hd')

/-- The digits written for a number stand for it. -/
theorem ofDigits_toDigits (n : Nat) : ofDigits 10 (Nat.toDigits 10 n) = n := by
  rw [ofDigits_eq_ofDigitChars (allDigits_toDigits n), Nat.ofDigitChars_ten_toDigits]

/-- Zeros in front change nothing. -/
theorem ofDigits_replicate_zero_append (k n : Nat) :
    ofDigits 10 (List.replicate k '0' ++ Nat.toDigits 10 n) = n := by
  have h : AllDigits (List.replicate k '0' ++ Nat.toDigits 10 n) :=
    allDigits_append.mpr ⟨allDigits_replicate_zero k, allDigits_toDigits n⟩
  rw [ofDigits_eq_ofDigitChars h, Nat.ofDigitChars_append, Nat.ofDigitChars_replicate_zero,
    Nat.mul_zero, Nat.ofDigitChars_ten_toDigits]

/-! ## The grammar -/

/-- The text of an exponent part and the number that it stands for. -/
inductive Exponent : List Char → Int → Prop
  | absent : Exponent [] 0
  | unsigned {mark : Char} {digits : List Char} (hm : mark = 'e' ∨ mark = 'E')
      (hne : digits ≠ []) (hd : AllDigits digits) : Exponent (mark :: digits) (ofDigits 10 digits)
  | plus {mark : Char} {digits : List Char} (hm : mark = 'e' ∨ mark = 'E')
      (hne : digits ≠ []) (hd : AllDigits digits) :
      Exponent (mark :: '+' :: digits) (ofDigits 10 digits)
  | minus {mark : Char} {digits : List Char} (hm : mark = 'e' ∨ mark = 'E')
      (hne : digits ≠ []) (hd : AllDigits digits) :
      Exponent (mark :: '-' :: digits) (-(ofDigits 10 digits : Int))

/-- The text of a mantissa, its digits in front of the point and those behind it. -/
inductive Mantissa : List Char → List Char → List Char → Prop
  | integer {whole : List Char} (hne : whole ≠ []) (hw : AllDigits whole) :
      Mantissa whole whole []
  | point {whole fraction : List Char} (hne : whole ++ fraction ≠ []) (hw : AllDigits whole)
      (hf : AllDigits fraction) : Mantissa (whole ++ '.' :: fraction) whole fraction

/-- The text of a literal, its digits, how many of them stand behind the point, and its
exponent. -/
inductive Literal : List Char → List Char → Nat → Int → Prop
  | mk {mantissa whole fraction part : List Char} {exponent : Int}
      (hm : Mantissa mantissa whole fraction) (he : Exponent part exponent) :
      Literal (mantissa ++ part) (whole ++ fraction) fraction.length exponent

/-! ## What the reader finds -/

theorem isExponentMark_of_isDigit {c : Char} (h : c.isDigit = true) : isExponentMark c = false := by
  have he : c ≠ 'e' := by rintro rfl; exact absurd h (by decide)
  have hE : c ≠ 'E' := by rintro rfl; exact absurd h (by decide)
  simp [isExponentMark, he, hE]

theorem Mantissa.digits {text whole fraction : List Char} (h : Mantissa text whole fraction) :
    whole ++ fraction ≠ [] ∧ AllDigits (whole ++ fraction) := by
  cases h with
  | integer hne hw => exact ⟨by simpa using hne, by simpa using hw⟩
  | point hne hw hf => exact ⟨hne, allDigits_append.mpr ⟨hw, hf⟩⟩

theorem Mantissa.head {text whole fraction : List Char} (h : Mantissa text whole fraction) :
    ∃ c rest, text = c :: rest ∧ (c.isDigit = true ∨ c = '.') := by
  have hhead : ∀ {digits : List Char}, digits ≠ [] → AllDigits digits → ∀ tail,
      ∃ c rest, digits ++ tail = c :: rest ∧ (c.isDigit = true ∨ c = '.') := by
    intro digits hne hd tail
    obtain ⟨c, rest, rfl⟩ := List.exists_cons_of_ne_nil hne
    exact ⟨c, rest ++ tail, rfl, Or.inl (hd c List.mem_cons_self)⟩
  cases h with
  | integer hne hw => simpa using hhead hne hw []
  | @point whole fraction hne hw hf =>
    by_cases hw0 : whole = []
    · subst hw0
      exact ⟨'.', fraction, rfl, Or.inr rfl⟩
    · exact hhead hw0 hw _

/-- A literal begins with a digit or a point, so with no sign. -/
theorem Literal.head {text digits : List Char} {places : Nat} {n : Int}
    (h : Literal text digits places n) :
    ∃ c rest, text = c :: rest ∧ (c.isDigit = true ∨ c = '.') := by
  obtain ⟨hm, he⟩ := h
  obtain ⟨c, rest, rfl, hc⟩ := hm.head
  exact ⟨c, rest ++ _, rfl, hc⟩

theorem Literal.allDigits {text digits : List Char} {places : Nat} {n : Int}
    (h : Literal text digits places n) : AllDigits digits := by
  obtain ⟨hm, -⟩ := h
  exact hm.digits.2

/-- The characters that a literal is made of. -/
theorem Literal.chars {text digits : List Char} {places : Nat} {n : Int}
    (h : Literal text digits places n) : ∀ c ∈ text,
      c.isDigit = true ∨ c = '.' ∨ c = 'e' ∨ c = 'E' ∨ c = '+' ∨ c = '-' := by
  obtain ⟨hm, he⟩ := h
  intro c hc
  rcases List.mem_append.mp hc with hc | hc
  · cases hm with
    | integer hne hw => exact Or.inl (hw c hc)
    | point hne hw hf =>
      rcases List.mem_append.mp hc with hc | hc
      · exact Or.inl (hw c hc)
      · rcases List.mem_cons.mp hc with rfl | hc
        · exact Or.inr (Or.inl rfl)
        · exact Or.inl (hf c hc)
  · cases he with
    | absent => exact absurd hc List.not_mem_nil
    | unsigned hm hne hd =>
      rcases List.mem_cons.mp hc with rfl | hc
      · rcases hm with rfl | rfl <;> decide
      · exact Or.inl (hd c hc)
    | plus hm hne hd =>
      rcases List.mem_cons.mp hc with rfl | hc
      · rcases hm with rfl | rfl <;> decide
      rcases List.mem_cons.mp hc with rfl | hc
      · decide
      · exact Or.inl (hd c hc)
    | minus hm hne hd =>
      rcases List.mem_cons.mp hc with rfl | hc
      · rcases hm with rfl | rfl <;> decide
      rcases List.mem_cons.mp hc with rfl | hc
      · decide
      · exact Or.inl (hd c hc)

theorem Mantissa.not_mark {text whole fraction : List Char} (h : Mantissa text whole fraction) :
    ∀ c ∈ text, (!isExponentMark c) = true := by
  intro c hc
  rw [Bool.not_eq_true']
  cases h with
  | integer hne hw => exact isExponentMark_of_isDigit (hw c hc)
  | point hne hw hf =>
    rcases List.mem_append.mp hc with hc | hc
    · exact isExponentMark_of_isDigit (hw c hc)
    · rcases List.mem_cons.mp hc with rfl | hc
      · rfl
      · exact isExponentMark_of_isDigit (hf c hc)

/-- An exponent part that is there opens with a mark. -/
theorem Exponent.eq_nil_or_mark {part : List Char} {n : Int} (h : Exponent part n) :
    part = [] ∨ ∃ mark rest, part = mark :: rest ∧ isExponentMark mark = true := by
  cases h with
  | absent => exact Or.inl rfl
  | unsigned hm => exact Or.inr ⟨_, _, rfl, by simpa [isExponentMark] using hm⟩
  | plus hm => exact Or.inr ⟨_, _, rfl, by simpa [isExponentMark] using hm⟩
  | minus hm => exact Or.inr ⟨_, _, rfl, by simpa [isExponentMark] using hm⟩

/-- The first exponent mark of a literal is where its exponent part begins. -/
theorem takeWhile_mantissa {text whole fraction part : List Char} {n : Int}
    (hm : Mantissa text whole fraction) (he : Exponent part n) :
    (text ++ part).takeWhile (!isExponentMark ·) = text ∧
      (text ++ part).dropWhile (!isExponentMark ·) = part := by
  rw [List.takeWhile_append_of_pos hm.not_mark, List.dropWhile_append_of_pos hm.not_mark]
  rcases he.eq_nil_or_mark with rfl | ⟨mark, rest, rfl, hmark⟩
  · simp
  · simp [hmark]

theorem ne_point_of_allDigits {text : List Char} (h : AllDigits text) :
    ∀ c ∈ text, decide (c ≠ '.') = true := by
  intro c hc
  have hd := h c hc
  rw [decide_eq_true_eq]
  rintro rfl
  exact absurd hd (by decide)

/-- The first point of a mantissa is the one in front of its fraction. -/
theorem takeWhile_point {text whole fraction : List Char} (h : Mantissa text whole fraction) :
    text.takeWhile (· ≠ '.') = whole ∧ (text.dropWhile (· ≠ '.')).drop 1 = fraction := by
  cases h with
  | integer hne hw =>
    have hp := ne_point_of_allDigits hw
    have htake : (text ++ []).takeWhile (· ≠ '.') = text ++ [] := List.takeWhile_append_of_pos hp
    have hdrop : (text ++ []).dropWhile (· ≠ '.') = [] := List.dropWhile_append_of_pos hp
    rw [List.append_nil] at htake hdrop
    rw [htake, hdrop]
    exact ⟨rfl, rfl⟩
  | point hne hw hf =>
    have hp := ne_point_of_allDigits hw
    rw [List.takeWhile_append_of_pos hp, List.dropWhile_append_of_pos hp]
    simp

theorem magnitude?_digits {digits : List Char} (hne : digits ≠ []) (hd : AllDigits digits) :
    exponent?.magnitude? digits = some (ofDigits 10 digits) := by
  rw [exponent?.magnitude?, if_pos ⟨hne, List.all_eq_true.mpr hd⟩]

/-- The exponent that is read behind the mark. -/
theorem exponent?_of_exponent {mark : Char} {rest : List Char} {n : Int}
    (h : Exponent (mark :: rest) n) : exponent? rest = (Scale.ofInt? n).map Scale.toInt := by
  cases h with
  | unsigned hm hne hd =>
    -- a digit is no sign, so the last case of the reader applies
    have hminus : ∀ digits, rest ≠ '-' :: digits := by
      rintro digits rfl
      exact absurd (hd '-' List.mem_cons_self) (by decide)
    have hplus : ∀ digits, rest ≠ '+' :: digits := by
      rintro digits rfl
      exact absurd (hd '+' List.mem_cons_self) (by decide)
    rw [exponent?.eq_3 rest hminus hplus, magnitude?_digits hne hd, Option.bind_some]
  | plus hm hne hd => rw [exponent?, magnitude?_digits hne hd, Option.bind_some]
  | minus hm hne hd => rw [exponent?, magnitude?_digits hne hd, Option.bind_some]

/-- **A literal is read as it is written**: its digits are the unscaled integer and the places less
the exponent are the scale, if the exponent and the scale fit in 64 bits. -/
theorem ofLiteral?_of_literal {text digits : List Char} {places : Nat} {n : Int}
    (h : Literal text digits places n) :
    ofLiteral? text = (Scale.ofInt? n).bind fun _ =>
      (Scale.ofInt? (places - n)).map fun scale => ⟨ofDigits 10 digits, scale⟩ := by
  cases h with
  | @mk mantissa whole fraction part _ hm he =>
    obtain ⟨htake, hdrop⟩ := takeWhile_mantissa hm he
    obtain ⟨hwhole, hfraction⟩ := takeWhile_point hm
    obtain ⟨hne, hd⟩ := hm.digits
    have hc : _ ∧ _ := ⟨hne, List.all_eq_true.mpr hd⟩
    simp only [ofLiteral?, htake, hdrop, hwhole, hfraction, if_pos hc]
    cases part with
    | nil => cases he; rfl
    | cons mark rest =>
      simp only [exponent?_of_exponent he]
      cases hn : Scale.ofInt? n with
      | none => rfl
      | some s => rw [Option.map_some, Option.bind_some, Option.bind_some, Scale.toInt_of_ofInt? hn]

/-! ## Only literals are read -/

theorem of_magnitude? {digits : List Char} {f : Nat → Option Int} {n : Int}
    (h : (exponent?.magnitude? digits).bind f = some n) : digits ≠ [] ∧ AllDigits digits := by
  obtain ⟨_, hmagnitude, -⟩ := Option.bind_eq_some_iff.mp h
  rw [exponent?.magnitude?] at hmagnitude
  split at hmagnitude
  case isTrue hd => exact ⟨hd.1, List.all_eq_true.mp hd.2⟩
  case isFalse => cases hmagnitude

/-- A text that is read as an exponent is one, behind its mark. -/
theorem exists_exponent {mark : Char} {rest : List Char} {n : Int}
    (hm : mark = 'e' ∨ mark = 'E') (h : exponent? rest = some n) :
    ∃ m, Exponent (mark :: rest) m := by
  unfold exponent? at h
  split at h
  · exact ⟨_, .minus hm (of_magnitude? h).1 (of_magnitude? h).2⟩
  · exact ⟨_, .plus hm (of_magnitude? h).1 (of_magnitude? h).2⟩
  · exact ⟨_, .unsigned hm (of_magnitude? h).1 (of_magnitude? h).2⟩

/-- A text is a mantissa if there are digits and nothing else around its first point. -/
theorem mantissa_of_digits {text : List Char}
    (hne : text.takeWhile (· ≠ '.') ++ (text.dropWhile (· ≠ '.')).drop 1 ≠ [])
    (hd : AllDigits (text.takeWhile (· ≠ '.') ++ (text.dropWhile (· ≠ '.')).drop 1)) :
    ∃ whole fraction, Mantissa text whole fraction := by
  have htext : text.takeWhile (· ≠ '.') ++ text.dropWhile (· ≠ '.') = text :=
    List.takeWhile_append_dropWhile
  have hpoint := List.head?_dropWhile_not (· ≠ '.') text
  generalize text.takeWhile (· ≠ '.') = whole at *
  cases hrest : text.dropWhile (· ≠ '.') with
  | nil =>
    rw [hrest] at htext hne hd
    simp only [List.drop_nil, List.append_nil] at htext hne hd
    subst htext
    exact ⟨_, _, .integer hne hd⟩
  | cons c fraction =>
    rw [hrest] at htext hne hd hpoint
    obtain ⟨hw, hf⟩ := allDigits_append.mp hd
    obtain rfl : c = '.' := by simpa using hpoint
    subst htext
    exact ⟨_, _, .point hne hw hf⟩

/-- **Only literals are read.** -/
theorem literal_of_ofLiteral? {text : List Char} {d : Decimal} (h : ofLiteral? text = some d) :
    ∃ digits places n, Literal text digits places n := by
  obtain ⟨n, hexponent, h⟩ := Option.bind_eq_some_iff.mp h
  split at h
  case isFalse => cases h
  case isTrue hd =>
  obtain ⟨whole, fraction, hm⟩ := mantissa_of_digits hd.1 (List.all_eq_true.mp hd.2)
  obtain ⟨n, he⟩ : ∃ n, Exponent (text.dropWhile (!isExponentMark ·)) n := by
    have hmark := List.head?_dropWhile_not (!isExponentMark ·) text
    cases hpart : text.dropWhile (!isExponentMark ·) with
    | nil => exact ⟨0, .absent⟩
    | cons mark rest =>
      rw [hpart] at hexponent hmark
      refine exists_exponent ?_ hexponent
      simpa [isExponentMark, Decidable.or_iff_not_imp_left] using hmark
  have hliteral := Literal.mk hm he
  rw [List.takeWhile_append_dropWhile] at hliteral
  exact ⟨_, _, _, hliteral⟩

/-- **What is read**: the literals whose exponent and scale fit in 64 bits, digit by digit. -/
theorem ofLiteral?_eq_some_iff {text : List Char} {d : Decimal} :
    ofLiteral? text = some d ↔ ∃ digits places n, Literal text digits places n ∧ Scale.Fits n ∧
      Scale.Fits (places - n) ∧ d.unscaled = Nat.ofDigitChars 10 digits 0 ∧
      d.scale.toInt = places - n := by
  constructor
  · intro h
    obtain ⟨digits, places, n, hl⟩ := literal_of_ofLiteral? h
    rw [ofLiteral?_of_literal hl] at h
    obtain ⟨exponent, hn, h⟩ := Option.bind_eq_some_iff.mp h
    obtain ⟨scale, hscale, rfl⟩ := Option.map_eq_some_iff.mp h
    refine ⟨digits, places, n, hl, ?_, ?_, ?_, Scale.toInt_of_ofInt? hscale⟩
    · exact Scale.toInt_of_ofInt? hn ▸ exponent.fits
    · exact Scale.toInt_of_ofInt? hscale ▸ scale.fits
    · exact congrArg Int.ofNat (ofDigits_eq_ofDigitChars hl.allDigits)
  · rintro ⟨digits, places, n, hl, hn, -, hunscaled, hscale⟩
    obtain ⟨exponent, hn⟩ := Scale.exists_ofInt? hn
    rw [ofLiteral?_of_literal hl, hn, ← hscale, Scale.ofInt?_toInt,
      ofDigits_eq_ofDigitChars hl.allDigits, ← hunscaled]
    rfl

/-! ## A text has one reading -/

theorem Exponent.unique {part : List Char} {m n : Int} (hm : Exponent part m)
    (hn : Exponent part n) : m = n := by
  have digit_ne : ∀ {digits : List Char} {c : Char}, AllDigits (c :: digits) → c.isDigit = true :=
    fun hd => hd _ List.mem_cons_self
  cases hm with
  | absent => cases hn; rfl
  | unsigned _ _ hd =>
    cases hn with
    | unsigned => rfl
    | plus => exact absurd (digit_ne hd) (by decide)
    | minus => exact absurd (digit_ne hd) (by decide)
  | plus =>
    cases hn with
    | unsigned _ _ hd => exact absurd (digit_ne hd) (by decide)
    | plus => rfl
  | minus =>
    cases hn with
    | unsigned _ _ hd => exact absurd (digit_ne hd) (by decide)
    | minus => rfl

/-- **The text of a literal determines its digits, its places and its exponent.** -/
theorem Literal.unique {text digits digits' : List Char} {places places' : Nat} {n n' : Int}
    (h : Literal text digits places n) (h' : Literal text digits' places' n') :
    digits = digits' ∧ places = places' ∧ n = n' := by
  cases h with
  | @mk mantissa whole fraction part _ hm he =>
    generalize htext : mantissa ++ part = text at h'
    cases h' with
    | mk hm' he' =>
      obtain ⟨htake, hdrop⟩ := takeWhile_mantissa hm he
      obtain ⟨htake', hdrop'⟩ := takeWhile_mantissa hm' he'
      rw [htext] at htake hdrop
      obtain rfl := htake.symm.trans htake'
      obtain rfl := hdrop.symm.trans hdrop'
      obtain ⟨hwhole, hfraction⟩ := takeWhile_point hm
      obtain ⟨hwhole', hfraction'⟩ := takeWhile_point hm'
      obtain rfl := hwhole.symm.trans hwhole'
      obtain rfl := hfraction.symm.trans hfraction'
      exact ⟨rfl, rfl, he.unique he'⟩

end Reckon.Decimal
