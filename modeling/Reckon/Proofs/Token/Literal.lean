import Reckon.Proofs.Token.Scan

/-!
# A literal on its own and in a scan

Two recognizers decide what a decimal literal is. The reader looks for the first exponent mark and
the first point and converts what stands around them; the scan measures the longest stretch that
looks like a literal and then has it read. They agree with each other and with the grammar on every
text: a literal is one token, the number that the reader gives for it, and where the reader gives
none, since a scale or an exponent does not fit, the scan stops in front of all of it.

Results:
* `scan_of_matches`: the scan of a text that matches a pattern.
* `readLiteral_agrees_scan`: reading and scanning against the grammar.
-/

namespace Reckon

/-- A text that matches a pattern is one token, unless it stands for none. -/
theorem scan_of_matches {p : Pattern} {text : List Char} (h : p.Matches text) :
    scan text = match p.token? text with
      | some t => ⟨[t], none⟩
      | none => .refuse text 0 := by
  have hu : StartsUnblank (text ++ []) := h.startsUnblank []
  have hm : LongestMatch (text ++ []) p text := longestMatch_append h ends_nil
  have hscan : scan text = Scan.go 0 0 (text ++ []) := by rw [List.append_nil, scan]
  cases ht : p.token? text with
  | some t => rw [hscan, Scan.go_token hu hm ht]; rfl
  | none => rw [hscan, Scan.go_malformed hu hm ht]

namespace Decimal

theorem readLiteral_eq_ok {text : List Char} {d : Decimal} :
    readLiteral text = .ok d ↔ ofLiteral? text = some d := by
  unfold readLiteral
  cases ofLiteral? text <;> simp

/-- **Literals are read exactly, and alike on their own and in a scan.** What is read are the texts
of the grammar whose exponent and scale fit in 64 bits, with all digits as the unscaled integer and
the places less the exponent as the scale. Such a text is one token; a literal that does not fit is
refused as a whole. -/
theorem readLiteral_agrees_scan (text : List Char) :
    (∀ d, readLiteral text = .ok d ↔ ∃ digits places n, Literal text digits places n ∧
      Scale.Fits n ∧ Scale.Fits (places - n) ∧ d.unscaled = Nat.ofDigitChars 10 digits 0 ∧
      d.scale.toInt = places - n) ∧
    (∀ error, readLiteral text = .error error → error = .malformedNumber (String.ofList text)) ∧
    (∀ d, readLiteral text = .ok d → scan text = ⟨[.number d], none⟩) ∧
    ∀ digits places n, Literal text digits places n → ¬(Scale.Fits n ∧ Scale.Fits (places - n)) →
      scan text = ⟨[], some (.unexpectedCharacter (String.ofList text) 0)⟩ := by
  refine ⟨fun d => readLiteral_eq_ok.trans ofLiteral?_eq_some_iff, fun error h => ?_, fun d h => ?_,
    fun digits places n hl hfits => ?_⟩
  · unfold readLiteral at h
    cases hread : ofLiteral? text <;> rw [hread] at h <;> cases h
    rfl
  · have hread := readLiteral_eq_ok.mp h
    obtain ⟨_, _, _, hl⟩ := literal_of_ofLiteral? hread
    rw [scan_of_matches (.decimal hl), Lexeme.decimal_token?, hread]
    rfl
  · have hread : ofLiteral? text = none := by
      refine Option.eq_none_iff_forall_not_mem.mpr fun d hd => hfits ?_
      obtain ⟨_, _, _, hl', hn, hscale, -⟩ := ofLiteral?_eq_some_iff.mp hd
      obtain ⟨-, rfl, rfl⟩ := hl.unique hl'
      exact ⟨hn, hscale⟩
    rw [scan_of_matches (.decimal hl), Lexeme.decimal_token?, hread]
    rfl

/-- The exponent fits in both literals, the scale only in the first. -/
theorem readLiteral_agrees_scan_boundary :
    let d : Decimal := ⟨15, ⟨9223372036854775807, by decide, by decide⟩⟩
    (readLiteral "1.5E-9223372036854775806".toList = .ok d ∧
      scan "1.5E-9223372036854775806".toList = ⟨[.number d], none⟩) ∧
    Literal "0.1E-9223372036854775808".toList ['0', '1'] 1 (-9223372036854775808) ∧
    scan "0.1E-9223372036854775808".toList =
      ⟨[], some (.unexpectedCharacter "0.1E-9223372036854775808" 0)⟩ := by
  intro d
  have hread : readLiteral "1.5E-9223372036854775806".toList = .ok d := by rfl
  have hm : Mantissa (['0'] ++ '.' :: ['1']) ['0'] ['1'] :=
    .point (List.cons_ne_nil _ _) (List.all_eq_true.mp rfl) (List.all_eq_true.mp rfl)
  have he : Exponent ('E' :: '-' :: "9223372036854775808".toList)
      (-(ofDigits 10 "9223372036854775808".toList)) :=
    .minus (.inr rfl) (by decide) (List.all_eq_true.mp (by rfl))
  have hl : Literal "0.1E-9223372036854775808".toList ['0', '1'] 1 (-9223372036854775808) :=
    .mk hm he
  exact ⟨⟨hread, (readLiteral_agrees_scan _).2.2.1 d hread⟩, hl,
    (readLiteral_agrees_scan _).2.2.2 _ _ _ hl (by decide)⟩

end Decimal

end Reckon
