import Reckon.Decimal.Error
import Reckon.Proofs.Decimal.Literal

/-!
# Decimals as text and back

What `render` writes is a literal of the grammar with a sign in front of it, so `read` gives the
decimal back, its scale included. Only where the exponent of the scientific form does not fit in
64 bits is the text refused; such a decimal is not `Readable`. The text of a decimal determines it
in any case.

Results:
* `literal_chars`: the text of a decimal that is not negative is a literal with its unscaled
  integer and its scale.
* `readLiteral_chars`: reading that text without a sign.
* `read_render_exact`: reading is the inverse of writing exactly on the readable decimals, and no
  two decimals have one text.
-/

namespace Reckon.Decimal

/-- The decimal is written without an exponent or with one that fits in 64 bits. -/
def Readable (d : Decimal) : Prop :=
  0 ≤ d.scale.toInt ∨ (numDigits d.unscaled.natAbs : Int) - 1 - d.scale.toInt ≤ 2 ^ 63 - 1

instance (d : Decimal) : Decidable d.Readable :=
  inferInstanceAs (Decidable (_ ∨ _))

/-! ## The two forms are literals -/

theorem literal_plain (n places : Nat) : ∃ digits,
    Literal (plain (Nat.toDigits 10 n) places) digits places 0 ∧ ofDigits 10 digits = n := by
  have hd := allDigits_toDigits n
  unfold plain
  by_cases h0 : places = 0
  · subst h0
    rw [if_pos rfl]
    have h := Literal.mk (Mantissa.integer Nat.toDigits_ne_nil hd) Exponent.absent
    simp only [List.append_nil] at h
    exact ⟨_, h, ofDigits_toDigits n⟩
  rw [if_neg h0]
  by_cases hlt : places < (Nat.toDigits 10 n).length
  · rw [if_pos hlt]
    generalize hk : (Nat.toDigits 10 n).length - places = k
    have hsplit := List.take_append_drop k (Nat.toDigits 10 n)
    have hlen : ((Nat.toDigits 10 n).drop k).length = places := by
      rw [List.length_drop]; omega
    have hd' := hd
    rw [← hsplit, allDigits_append] at hd'
    have h := Literal.mk (Mantissa.point (by rw [hsplit]; exact Nat.toDigits_ne_nil) hd'.1 hd'.2)
      Exponent.absent
    rw [List.append_nil, hsplit, hlen] at h
    exact ⟨_, h, ofDigits_toDigits n⟩
  · rw [if_neg hlt]
    generalize hk : places - (Nat.toDigits 10 n).length = k
    have hlen : (List.replicate k '0' ++ Nat.toDigits 10 n).length = places := by
      rw [List.length_append, List.length_replicate]; omega
    have hne : List.replicate 1 '0' ++ (List.replicate k '0' ++ Nat.toDigits 10 n) ≠ [] :=
      List.cons_ne_nil _ _
    have h := Literal.mk (Mantissa.point hne (allDigits_replicate_zero 1)
      (allDigits_append.mpr ⟨allDigits_replicate_zero k, hd⟩)) Exponent.absent
    rw [List.append_nil, hlen, ← List.append_assoc, List.replicate_append_replicate] at h
    exact ⟨_, h, ofDigits_replicate_zero_append (1 + k) n⟩

/-- The exponent behind `E`, with its sign. -/
theorem exponent_signed (e : Int) :
    Exponent ('E' :: (if e < 0 then '-' else '+') :: Nat.toDigits 10 e.natAbs) e := by
  have hne : Nat.toDigits 10 e.natAbs ≠ [] := Nat.toDigits_ne_nil
  have hd := allDigits_toDigits e.natAbs
  have hv := ofDigits_toDigits e.natAbs
  by_cases he : e < 0
  · rw [if_pos he]
    have h := Exponent.minus (Or.inr rfl) hne hd
    rwa [hv, show -(e.natAbs : Int) = e by omega] at h
  · rw [if_neg he]
    have h := Exponent.plus (Or.inr rfl) hne hd
    rwa [hv, show (e.natAbs : Int) = e by omega] at h

/-- The first digit of a number and the others behind the point. -/
theorem mantissa_scientific (n : Nat) :
    Mantissa ((Nat.toDigits 10 n).take 1 ++
        if (Nat.toDigits 10 n).length ≤ 1 then [] else '.' :: (Nat.toDigits 10 n).drop 1)
      ((Nat.toDigits 10 n).take 1) ((Nat.toDigits 10 n).drop 1) := by
  have hd := allDigits_toDigits n
  have hne : Nat.toDigits 10 n ≠ [] := Nat.toDigits_ne_nil
  have hsplit := List.take_append_drop 1 (Nat.toDigits 10 n)
  by_cases h1 : (Nat.toDigits 10 n).length ≤ 1
  · rw [if_pos h1, List.append_nil, List.take_of_length_le h1, List.drop_of_length_le h1]
    exact Mantissa.integer hne hd
  · rw [if_neg h1]
    rw [← hsplit, allDigits_append] at hd
    exact Mantissa.point (by rw [hsplit]; exact hne) hd.1 hd.2

theorem literal_scientific (n : Nat) (e : Int) :
    Literal (scientific (Nat.toDigits 10 n) e) (Nat.toDigits 10 n) (numDigits n - 1) e := by
  have h := Literal.mk (mantissa_scientific n) (exponent_signed e)
  rwa [List.take_append_drop, List.length_drop] at h

/-- **The text of a decimal that is not negative is a literal** with its unscaled integer and its
scale, whose exponent fits in 64 bits exactly if the decimal is readable. -/
theorem literal_chars {d : Decimal} (h : 0 ≤ d.unscaled) : ∃ digits places e,
    Literal d.chars digits places e ∧ (ofDigits 10 digits : Int) = d.unscaled ∧
      (places : Int) - e = d.scale.toInt ∧ ((Scale.ofInt? e).isSome ↔ d.Readable) := by
  have hpos := numDigits_pos d.unscaled.natAbs
  have hlower := d.scale.lower
  have hupper := d.scale.upper
  have hadj : d.adjusted = (numDigits d.unscaled.natAbs : Int) - 1 - d.scale.toInt := rfl
  unfold chars
  simp only [if_neg (Int.not_lt.mpr h), List.nil_append]
  by_cases hp : 0 ≤ d.scale.toInt ∧ -6 ≤ d.adjusted
  · rw [if_pos hp]
    obtain ⟨digits, hl, hv⟩ := literal_plain d.unscaled.natAbs d.scale.toInt.toNat
    refine ⟨digits, _, 0, hl, by rw [hv]; omega, by omega, ?_⟩
    exact iff_of_true rfl (Or.inl hp.1)
  · rw [if_neg hp]
    refine ⟨_, _, _, literal_scientific d.unscaled.natAbs d.adjusted, ?_, ?_, ?_⟩
    · rw [ofDigits_toDigits]; omega
    · omega
    · rw [Scale.isSome_ofInt?]
      unfold Scale.Fits Readable
      omega

/-! ## Reading what was written -/

theorem Literal.not_sign {text digits : List Char} {places : Nat} {n : Int}
    (h : Literal text digits places n) (rest : List Char) :
    text ≠ '-' :: rest ∧ text ≠ '+' :: rest := by
  obtain ⟨c, tail, rfl, hc⟩ := h.head
  constructor
  · rintro ⟨⟩
    exact absurd hc (by decide)
  · rintro ⟨⟩
    exact absurd hc (by decide)

theorem abs_of_unscaled_nonneg {d : Decimal} (h : 0 ≤ d.unscaled) : d.abs = d := by
  obtain ⟨unscaled, scale⟩ := d
  exact congrArg (Decimal.mk · scale) (Int.natAbs_of_nonneg h)

theorem abs_unscaled_nonneg (d : Decimal) : 0 ≤ d.abs.unscaled := Int.natCast_nonneg _

/-- The text of a negative decimal is a sign in front of that of its absolute value. -/
theorem chars_of_neg {d : Decimal} (h : d.unscaled < 0) : d.chars = '-' :: d.abs.chars := by
  have hneg : ¬ d.abs.unscaled < 0 := Int.not_lt.mpr d.abs_unscaled_nonneg
  have hnat : d.abs.unscaled.natAbs = d.unscaled.natAbs := Int.natAbs_natCast _
  have hadj : d.abs.adjusted = d.adjusted := by
    simp only [adjusted, digits, hnat, show d.abs.scale = d.scale from rfl]
  unfold chars
  simp only [if_pos h, if_neg hneg, hnat, hadj, show d.abs.scale = d.scale from rfl,
    List.nil_append]
  split <;> rfl

theorem readable_abs {d : Decimal} : d.abs.Readable ↔ d.Readable := by
  simp only [Readable, abs, Int.natAbs_natCast]

/-- Reading the text of a decimal that is not negative. -/
theorem readLiteral_chars {d : Decimal} (h : 0 ≤ d.unscaled) :
    readLiteral d.chars =
      if d.Readable then .ok d else .error (.malformedNumber d.render) := by
  obtain ⟨digits, places, e, hl, hv, hs, he⟩ := literal_chars h
  rw [readLiteral, ofLiteral?_of_literal hl, hs, Scale.ofInt?_toInt, hv]
  by_cases hr : d.Readable
  · obtain ⟨s, hs⟩ := Option.isSome_iff_exists.mp (he.mpr hr)
    rw [if_pos hr, hs]
    rfl
  · have hn : Scale.ofInt? e = none := by
      rw [← Option.not_isSome_iff_eq_none, he]
      exact hr
    rw [if_neg hr, hn]
    rfl

theorem neg_abs_of_neg {d : Decimal} (h : d.unscaled < 0) : d.abs.neg = d := by
  obtain ⟨unscaled, scale⟩ := d
  have hu : -(unscaled.natAbs : Int) = unscaled := by
    simp only at h
    omega
  exact congrArg (Decimal.mk · scale) hu

/-- **Reading gives back what was written**, unless the exponent does not fit in 64 bits. -/
theorem read_render (d : Decimal) :
    read d.render = if d.Readable then .ok d else .error (.malformedNumber d.abs.render) := by
  unfold read render
  rw [String.toList_ofList]
  by_cases hneg : d.unscaled < 0
  · rw [chars_of_neg hneg]
    simp only [readLiteral_chars d.abs_unscaled_nonneg, readable_abs]
    split
    · exact congrArg Except.ok (neg_abs_of_neg hneg)
    · rfl
  · have h : 0 ≤ d.unscaled := Int.not_lt.mp hneg
    obtain ⟨_, _, _, hl, -⟩ := literal_chars h
    rw [abs_of_unscaled_nonneg h]
    split
    · rename_i rest heq
      exact absurd heq (hl.not_sign rest).1
    · rename_i rest heq
      exact absurd heq (hl.not_sign rest).2
    · exact readLiteral_chars h

/-! ## No two decimals have one text -/

theorem chars_injective_of_nonneg {a b : Decimal} (ha : 0 ≤ a.unscaled) (hb : 0 ≤ b.unscaled)
    (h : a.chars = b.chars) : a = b := by
  obtain ⟨digits, places, e, hl, hv, hs, -⟩ := literal_chars ha
  obtain ⟨digits', places', e', hl', hv', hs', -⟩ := literal_chars hb
  rw [← h] at hl'
  obtain ⟨rfl, rfl, rfl⟩ := hl.unique hl'
  have hscale : a.scale = b.scale := Scale.ext (hs.symm.trans hs')
  obtain ⟨unscaled, scale⟩ := a
  obtain ⟨unscaled', scale'⟩ := b
  obtain rfl : scale = scale' := hscale
  obtain rfl : unscaled = unscaled' := hv.symm.trans hv'
  rfl

theorem chars_injective {a b : Decimal} (h : a.chars = b.chars) : a = b := by
  -- the first character tells the sign, since a literal begins with none
  have sign : ∀ {a b : Decimal}, a.chars = b.chars → a.unscaled < 0 → b.unscaled < 0 := by
    intro a b h ha
    refine Int.not_le.mp fun hb => ?_
    obtain ⟨_, _, _, hl, -⟩ := literal_chars hb
    rw [chars_of_neg ha] at h
    exact (hl.not_sign a.abs.chars).1 h.symm
  by_cases ha : a.unscaled < 0
  · have hb := sign h ha
    rw [chars_of_neg ha, chars_of_neg hb, List.cons.injEq] at h
    have habs := chars_injective_of_nonneg a.abs_unscaled_nonneg b.abs_unscaled_nonneg h.2
    rw [← neg_abs_of_neg ha, habs, neg_abs_of_neg hb]
  · have hb : ¬ b.unscaled < 0 := fun hb => ha (sign h.symm hb)
    exact chars_injective_of_nonneg (Int.not_lt.mp ha) (Int.not_lt.mp hb) h

/-- **Writing and reading are inverse exactly on the readable decimals**: reading the text of a
decimal gives its unscaled integer and its scale if the scale is not negative or the exponent
`digits - 1 - scale` fits in 64 bits, and refuses the text otherwise. Two decimals with one text
are the same in any case. -/
theorem read_render_exact :
    (∀ (unscaled : Int) (scale : Scale),
      read (render ⟨unscaled, scale⟩) =
        if 0 ≤ scale.toInt ∨
          ((Nat.toDigits 10 unscaled.natAbs).length : Int) - 1 - scale.toInt ≤ 2 ^ 63 - 1
        then .ok ⟨unscaled, scale⟩
        else .error (.malformedNumber (render ⟨unscaled.natAbs, scale⟩))) ∧
    ∀ a b : Decimal, a.render = b.render → a = b :=
  ⟨fun _ _ => read_render _, fun _ _ h => chars_injective (String.ofList_injective h)⟩

end Reckon.Decimal
