import Reckon.Proofs.Decimal.Rescale
import Reckon.Proofs.Decimal.Value
import Reckon.Proofs.Expr.RoundTrip
import Reckon.Proofs.Session.Effect

/-!
# Typing a displayed value in again

The text of a value that is not negative is a literal. That of a negative value is read as zero less
a literal, and the difference is formed at scale 0 at least. So the text has the same value again,
with two exceptions, which both have to do with exponents: the exponent of the text has to fit in 64
bits, and the difference must not take more zeros than are ever appended.

Results:
* `parse_render_of_nonneg`, `parse_render_of_neg`, `parse_render_of_not_readable`: how the text of a
  number is read.
* `retype`: what comes of typing in the text of a number.
* `evaluate_render`: the text that an evaluation gives can be typed in again.
* `evaluate_render_far`: two values whose texts cannot be typed in again.
-/

namespace Reckon

/-! ## Reading the text of a number -/

namespace Scan

/-- Nothing goes on with a minus sign. -/
theorem go_minus (offset : Nat) (rest : List Char) :
    go offset 0 ('-' :: rest) = (go (offset + 1) 0 rest).cons (.symbol .minus) := by
  have hm : LongestMatch ("-".toList ++ rest) (.symbol .minus) "-".toList := by
    refine Expr.longestMatch_symbol (s := .minus) fun t hp => ?_
    obtain ⟨tail, hp⟩ := hp
    cases t <;> cases hp
    exact Nat.le_refl _
  exact go_token (hm.isMatch.startsUnblank rest) hm rfl offset

/-- A literal whose exponent does not fit in 64 bits is refused. -/
theorem go_of_not_readable {d : Decimal} (h : 0 ≤ d.unscaled) (hd : ¬d.Readable) (offset : Nat) :
    go offset 0 d.chars = refuse d.chars offset := by
  obtain ⟨_, _, _, hl, -⟩ := Decimal.literal_chars h
  have hm := longestMatch_append (.decimal hl) ends_nil
  have ht : Pattern.token? .decimal d.chars = none := by
    rw [Pattern.token?, Decimal.readLiteral_chars h, if_neg hd]
    rfl
  have hgo := go_malformed (hm.isMatch.startsUnblank []) hm ht offset
  rwa [List.append_nil] at hgo

end Scan

namespace Expr

variable {d : Decimal}

theorem parse_render_of_nonneg (h : 0 ≤ d.unscaled) (hd : d.Readable) :
    parse d.render = .ok (.num d) := by
  have hparsed : Parsed (.num d) := .num h
  have hparse := parse_render_of_parsed hparsed (by simpa [numbers] using hd)
  rwa [render] at hparse

theorem parse_render_of_neg (h : d.unscaled < 0) (hd : d.Readable) :
    parse d.render = .ok (.binary .sub (.num .zero) (.num d.abs)) := by
  have hread := Decimal.readable_abs.mpr hd
  have hnumber := Scans.number d.abs_unscaled_nonneg hread ends_nil scans_nil
  rw [Decimal.render, String.toList_ofList, List.append_nil] at hnumber
  have hscan : scan d.render.toList = ⟨[.symbol .minus, .number d.abs], none⟩ := by
    rw [scan, Decimal.render, String.toList_ofList, Decimal.chars_of_neg h, Scan.go_minus,
      hnumber]
    rfl
  rw [parse_eq_ok, hscan, ofTokens_iff]
  have hnumber : Derives .sign [.number d.abs] (.num d.abs) :=
    Derives.number.of_rank_le (by decide)
  have hminus := Derives.lead .minus hnumber
  exact ⟨rfl, hminus.of_rank_le (by decide)⟩

theorem parse_render_of_not_readable (hd : ¬d.Readable) :
    ∃ error, parse d.render = .error error := by
  have hfailure : (scan d.render.toList).failure ≠ none := by
    rw [scan, Decimal.render, String.toList_ofList]
    by_cases h : d.unscaled < 0
    · rw [Decimal.chars_of_neg h, Scan.go_minus,
        Scan.go_of_not_readable d.abs_unscaled_nonneg (mt Decimal.readable_abs.mp hd)]
      exact Option.some_ne_none _
    · rw [Scan.go_of_not_readable (Int.not_lt.mp h) hd]
      exact Option.some_ne_none _
  cases hparse : parse d.render with
  | error error => exact ⟨error, rfl⟩
  | ok e => exact absurd (parse_eq_ok.mp hparse).1 hfailure

/-- Zero less a number, in any environment. -/
theorem eval_zero_sub (d : Decimal) (env : Environment) :
    (binary .sub (num .zero) (num d)).eval env = Evaluation.lift (Decimal.zero.sub d) env := by
  rw [eval_binary, eval_num, eval_num]
  rfl

end Expr

/-! ## Typing the text of a value in -/

/-- The text of the number can be typed in again: its exponent fits in 64 bits, and if there is a
sign in front of it, it can be written out with as many zeros as are ever appended. -/
def Decimal.Retypable (d : Decimal) : Prop :=
  d.Readable ∧ (0 ≤ d.unscaled ∨ -maxZeros ≤ d.scale.toInt)

instance (d : Decimal) : Decidable d.Retypable :=
  inferInstanceAs (Decidable (_ ∧ _))

namespace Session

/-- What an evaluation that succeeds gives: the text of a value, which `Ans` holds. -/
theorem evaluate_eq_ok {s s₁ : Session} {text t : String} (h : s.evaluate text = (.ok t, s₁)) :
    ∃ v, s₁.valueOf? lastValue = some v ∧ v.render = t := by
  cases hparse : Expr.parse text with
  | error error =>
    rw [evaluate_of_unreadable hparse] at h
    cases h
  | ok e =>
    cases hrun : e.eval s.environment with
    | error error env =>
      rw [evaluate_of_error hparse hrun] at h
      cases h
    | ok v env =>
      rw [evaluate_of_ok hparse hrun] at h
      cases h
      exact ⟨v, by simp [valueOf?, Bindings.number?], rfl⟩

/-- A text that is read as an expression with a value. -/
theorem exists_evaluate_of_ok {s : Session} {text : String} {e : Expr} {w : Decimal}
    {env : Environment} (hparse : Expr.parse text = .ok e)
    (hrun : e.eval s.environment = .ok w env) :
    ∃ s₁, s.evaluate text = (.ok w.render, s₁) ∧ s₁.valueOf? lastValue = some w :=
  ⟨_, evaluate_of_ok hparse hrun, by simp [valueOf?, Bindings.number?]⟩

/-- The text of a negative number, typed in. -/
theorem evaluate_render_of_neg {d : Decimal} (s : Session) (h : d.unscaled < 0) (hd : d.Readable) :
    if -Decimal.maxZeros ≤ d.scale.toInt then
      ∃ w s₁, s.evaluate d.render = (.ok w.render, s₁) ∧ s₁.valueOf? lastValue = some w ∧
        w.value = d.value ∧ (0 ≤ d.scale.toInt → w = d)
    else ∃ failure, (s.evaluate d.render).1 = .error failure := by
  have hparse := Expr.parse_render_of_neg h hd
  have hrun := Expr.eval_zero_sub d.abs s.environment
  have h0 : d.abs.unscaled ≠ 0 := by
    show (d.unscaled.natAbs : ℤ) ≠ 0
    omega
  rw [Decimal.zero_sub h0, show d.abs.scale = d.scale from rfl] at hrun
  by_cases hs : 0 ≤ d.scale.toInt
  · have hgap : -Decimal.maxZeros ≤ d.scale.toInt := by
      rw [Decimal.maxZeros]
      omega
    rw [if_pos hs, Decimal.neg_abs_of_neg h] at hrun
    rw [if_pos hgap]
    obtain ⟨s₁, hevaluate, hlast⟩ := exists_evaluate_of_ok hparse hrun
    exact ⟨d, s₁, hevaluate, hlast, rfl, fun _ => rfl⟩
  · rw [if_neg hs] at hrun
    by_cases hgap : -Decimal.maxZeros ≤ d.scale.toInt
    · rw [if_pos hgap] at hrun ⊢
      obtain ⟨s₁, hevaluate, hlast⟩ := exists_evaluate_of_ok hparse hrun
      refine ⟨_, s₁, hevaluate, hlast, ?_, fun hnonneg => absurd hnonneg hs⟩
      rw [Decimal.value_of_scale_nonpos (d := d) (by omega), ← Decimal.ofInt, Decimal.value_ofInt]
      have : -d.abs.unscaled = d.unscaled := congrArg Decimal.unscaled (Decimal.neg_abs_of_neg h)
      rw [← Int.neg_mul, this]
    · rw [if_neg hgap] at hrun ⊢
      exact ⟨_, by rw [evaluate_of_error hparse hrun]⟩

/-- The text of a number that is not negative, typed in. -/
theorem evaluate_render_of_nonneg {d : Decimal} (s : Session) (h : 0 ≤ d.unscaled)
    (hd : d.Readable) :
    ∃ s₁, s.evaluate d.render = (.ok d.render, s₁) ∧ s₁.valueOf? lastValue = some d := by
  have hrun : (Expr.num d).eval s.environment = .ok d s.environment := by
    rw [Expr.eval_num]
    rfl
  exact exists_evaluate_of_ok (Expr.parse_render_of_nonneg h hd) hrun

/-- The text of a number, typed into a session: it has the value of the number again, or no value
if the number is not retypable. -/
theorem retype (d : Decimal) (s : Session) :
    (d.Retypable → ∃ w s₁, s.evaluate d.render = (.ok w.render, s₁) ∧
      s₁.valueOf? lastValue = some w ∧ w.value = d.value ∧
      (0 ≤ d.value ∨ 0 ≤ d.scale.toInt → w.render = d.render)) ∧
    (¬d.Retypable → ∃ failure, (s.evaluate d.render).1 = .error failure) := by
  -- the text is a literal, a sign and a literal, or a literal that is refused
  by_cases hread : d.Readable
  · by_cases hneg : d.unscaled < 0
    · have hevaluate := evaluate_render_of_neg s hneg hread
      have hretypable : d.Retypable ↔ -Decimal.maxZeros ≤ d.scale.toInt := by
        simp [Decimal.Retypable, hread, Int.not_le.mpr hneg]
      rw [hretypable, Decimal.value_nonneg, or_iff_right (Int.not_le.mpr hneg)]
      refine ⟨fun hgap => ?_, fun hgap => ?_⟩
      · rw [if_pos hgap] at hevaluate
        obtain ⟨w, s₁, hw, hlast, hvalue, hsame⟩ := hevaluate
        exact ⟨w, s₁, hw, hlast, hvalue, fun hscale => by rw [hsame hscale]⟩
      · rwa [if_neg hgap] at hevaluate
    · have hnonneg : 0 ≤ d.unscaled := Int.not_lt.mp hneg
      obtain ⟨s₁, hevaluate, hlast⟩ := evaluate_render_of_nonneg s hnonneg hread
      exact ⟨fun _ => ⟨d, s₁, hevaluate, hlast, rfl, fun _ => rfl⟩,
        fun hnot => absurd ⟨hread, .inl hnonneg⟩ hnot⟩
  · refine ⟨fun hr => absurd hr.1 hread, fun _ => ?_⟩
    obtain ⟨error, hparse⟩ := Expr.parse_render_of_not_readable hread
    exact ⟨_, by rw [evaluate_of_unreadable hparse]⟩

/-- **A displayed value can be typed in again.** The text of a value, typed into any session, has
the same value again, and the same text if the value is not negative or its scale is not negative.
The only texts without a value are those of an exponent that does not fit in 64 bits, and of a
negative value that takes more zeros to write out than are ever appended. -/
theorem evaluate_render {s s₁ : Session} {text t : String} (h : s.evaluate text = (.ok t, s₁)) :
    ∃ v, s₁.valueOf? lastValue = some v ∧ v.render = t ∧ ∀ s₂ : Session,
      (v.Retypable → ∃ w s₃, s₂.evaluate t = (.ok w.render, s₃) ∧
        s₃.valueOf? lastValue = some w ∧ w.value = v.value ∧
        (0 ≤ v.value ∨ 0 ≤ v.scale.toInt → w.render = t)) ∧
      (¬v.Retypable → ∃ failure, (s₂.evaluate t).1 = .error failure) := by
  obtain ⟨v, hlast, rfl⟩ := evaluate_eq_ok h
  exact ⟨v, hlast, rfl, retype v⟩

theorem evaluate_render_negative : ∃ s₁, (new default).evaluate "2-3.50" = (.ok "-1.50", s₁) ∧
    ∀ s₂ : Session, ∃ s₃, s₂.evaluate "-1.50" = (.ok "-1.50", s₃) := by
  let hundredths (n : ℤ) : Decimal := ⟨n, ⟨2, by decide, by decide⟩⟩
  have hscan : scan "2-3.50".toList =
      ⟨[.number (.ofInt 2), .symbol .minus, .number (hundredths 350)], none⟩ := by decide +kernel
  have hparse : Expr.parse "2-3.50" =
      .ok (.binary .sub (.num (.ofInt 2)) (.num (hundredths 350))) :=
    Expr.parse_of_scan hscan rfl
  have hrun : (Expr.binary .sub (.num (.ofInt 2)) (.num (hundredths 350))).eval
      (new default).environment = .ok (hundredths (-150)) (new default).environment := by rfl
  have hrender : (hundredths (-150)).render = "-1.50" := by decide +kernel
  have h := evaluate_of_ok hparse hrun
  rw [hrender] at h
  obtain ⟨v, hlast, hv, hretype⟩ := evaluate_render h
  obtain rfl := Option.some.inj hlast
  refine ⟨_, h, fun s₂ => ?_⟩
  obtain ⟨w, s₃, hw, -, -, hsame⟩ := (hretype s₂).1 (by decide)
  exact ⟨s₃, by rw [hw, hsame (.inr (by decide))]⟩

/-- Two values whose texts cannot be typed in again: the exponent of the first does not fit in 64
bits, and the second takes five thousand million zeros to write out. -/
theorem evaluate_render_far :
    (∃ s₁, (new default).evaluate "99E9223372036854775807" = (.ok "9.9E+9223372036854775808", s₁) ∧
      ∃ failure, (s₁.evaluate "9.9E+9223372036854775808").1 = .error failure) ∧
    ∃ s₁, (new default).evaluate "(0-1)*1E5000000000" = (.ok "-1E+5000000000", s₁) ∧
      ∃ failure, (s₁.evaluate "-1E+5000000000").1 = .error failure := by
  constructor
  · let v : Decimal := ⟨99, ⟨-9223372036854775807, by decide, by decide⟩⟩
    have hscan : scan "99E9223372036854775807".toList = ⟨[.number v], none⟩ := by decide +kernel
    have hevaluate := evaluate_of_ok (s := new default) (Expr.parse_of_scan hscan rfl) rfl
    have hrender : v.render = "9.9E+9223372036854775808" := by decide +kernel
    have hnot : ¬v.Retypable := by decide +kernel
    rw [hrender] at hevaluate
    exact ⟨_, hevaluate, hrender ▸ (retype v _).2 hnot⟩
  · let v : Decimal := ⟨-1, ⟨-5000000000, by decide, by decide⟩⟩
    have hscan : scan "(0-1)*1E5000000000".toList = ⟨[.symbol .leftParen, .number .zero,
        .symbol .minus, .number .one, .symbol .rightParen, .symbol .star, .number v.neg], none⟩ := by
      decide +kernel
    have hparse : Expr.parse "(0-1)*1E5000000000" =
        .ok (.binary .mul (.binary .sub (.num .zero) (.num .one)) (.num v.neg)) :=
      Expr.parse_of_scan hscan rfl
    have hrun : (Expr.binary .mul (.binary .sub (.num .zero) (.num .one)) (.num v.neg)).eval
        (new default).environment = .ok v (new default).environment := by rfl
    have hevaluate := evaluate_of_ok hparse hrun
    have hrender : v.render = "-1E+5000000000" := by decide +kernel
    have hnot : ¬v.Retypable := by decide +kernel
    rw [hrender] at hevaluate
    exact ⟨_, hevaluate, hrender ▸ (retype v _).2 hnot⟩

end Session

end Reckon
