import Reckon.Proofs.Token.Scan
import Reckon.Session

/-!
# Blanks between tokens

`Spaced text wide` says that `wide` is `text` with runs of blanks put in before its first token,
between two tokens or behind the last one, in as many of these places as one likes. Where two
tokens touch they may stay so, or be torn apart.

The scan looks beyond a token to see that no longer one stands there. Tearing the text apart behind
the token does no harm, since no token has a blank in it: what begins a widened text and has no
blank in it begins the text itself. So a longest match is still the longest.

Results:
* `Spaced.begins`: what has no blank in it and begins a widened text.
* `LongestMatch.spaced`: the longest match in front of a widened text.
* `Scan.go_spaced`: the tokens of a widened text.
* `Session.evaluate_spaced`: the scan, the expression and its evaluation.
-/

namespace Reckon

/-- Blanks put in anywhere among the blanks of a gap. -/
structure Widens (wide gap : List Char) : Prop where
  kept : gap.Sublist wide
  blanks : Blanks wide

theorem Widens.nil : Widens [] [] := ⟨List.Sublist.refl [], fun _ hc => absurd hc List.not_mem_nil⟩

theorem Widens.gap_blanks {wide gap : List Char} (h : Widens wide gap) : Blanks gap :=
  fun c hc => h.blanks c (h.kept.subset hc)

/-- A text, and the text with runs of blanks put in before, between and behind its tokens. -/
inductive Spaced : List Char → List Char → Prop
  | finish {gap wide : List Char} (hg : Widens wide gap) : Spaced gap wide
  | token {gap wide slice rest rest' : List Char} {p : Pattern} (hg : Widens wide gap)
      (hm : LongestMatch (slice ++ rest) p slice) (hr : Spaced rest rest') :
      Spaced (gap ++ (slice ++ rest)) (wide ++ (slice ++ rest'))

/-- No token has a blank in it. -/
theorem Pattern.Matches.unblank {p : Pattern} {slice : List Char} (h : p.Matches slice) :
    ∀ c ∈ slice, Text.isBlank c = false := by
  obtain ⟨first, rest, rfl, hfirst⟩ := h.head
  intro c hc
  rcases List.mem_cons.mp hc with rfl | hc
  · exact hfirst.isBlank
  · refine Bool.eq_false_iff.mpr fun hb => ?_
    have hle := toNat_le_of_isBlank hb
    rcases h.ending c hc with hge | rfl
    · omega
    · exact absurd hle (by decide)

/-- What has no blank in it and begins with a gap is empty. -/
theorem eq_nil_of_blanks {part gap rest : List Char} (hp : ∀ c ∈ part, Text.isBlank c = false)
    (hg : Blanks gap) (hne : gap ≠ []) (hb : part <+: gap ++ rest) : part = [] := by
  obtain ⟨b, gap, rfl⟩ := List.exists_cons_of_ne_nil hne
  cases part with
  | nil => rfl
  | cons c part =>
    obtain ⟨rfl, -⟩ := List.cons_prefix_cons.mp hb
    exact absurd ((hp c List.mem_cons_self).symm.trans (hg c List.mem_cons_self))
      Bool.false_ne_true

/-- **What has no blank in it and begins a widened text** begins the text itself. -/
theorem Spaced.begins {text text' part : List Char} (h : Spaced text text')
    (hp : ∀ c ∈ part, Text.isBlank c = false) (hb : part <+: text') : part <+: text := by
  induction h generalizing part with
  | @finish gap wide hg =>
    by_cases hne : wide = []
    · subst hne
      rw [List.prefix_nil.mp hb]
      exact List.nil_prefix
    · rw [← List.append_nil wide] at hb
      rw [eq_nil_of_blanks hp hg.blanks hne hb]
      exact List.nil_prefix
  | @token gap wide slice rest rest' p hg hm hr ih =>
    by_cases hne : wide = []
    · subst hne
      rw [List.sublist_nil.mp hg.kept, List.nil_append]
      rw [List.nil_append] at hb
      rcases List.prefix_or_prefix_of_prefix hb (List.prefix_append slice rest') with hle | hle
      · exact hle.trans (List.prefix_append slice rest)
      · -- all of the token, and more of the text behind it
        obtain ⟨more, rfl⟩ := hle
        have hmore := (List.prefix_append_right_inj slice).mp hb
        refine (List.prefix_append_right_inj slice).mpr (ih (fun c hc => ?_) hmore)
        exact hp c (List.mem_append_right slice hc)
    · rw [eq_nil_of_blanks hp hg.blanks hne hb]
      exact List.nil_prefix

/-- **The longest match** stays the longest in front of a widened text. -/
theorem LongestMatch.spaced {p : Pattern} {slice rest rest' : List Char}
    (hm : LongestMatch (slice ++ rest) p slice) (h : Spaced rest rest') :
    LongestMatch (slice ++ rest') p slice where
  begins := List.prefix_append slice rest'
  isMatch := hm.isMatch
  longest := fun q other hq hother =>
    hm.longest q other hq ((Spaced.token .nil hm h).begins hq.unblank hother)

/-- **The tokens of a widened text**, wherever it starts. -/
theorem Scan.go_spaced {text text' : List Char} (h : Spaced text text') (offset offset' : Nat)
    (hscan : (go offset 0 text).failure = none) : go offset' 0 text' = go offset 0 text := by
  induction h generalizing offset offset' with
  | finish hg => rw [go_of_cut (.finish hg.gap_blanks), go_of_cut (.finish hg.blanks)]
  | @token gap wide slice rest rest' p hg hm hr ih =>
    have hu : StartsUnblank (slice ++ rest) := hm.isMatch.startsUnblank rest
    rw [go_blanks hg.gap_blanks] at hscan
    rw [go_blanks hg.gap_blanks, go_blanks hg.blanks]
    cases ht : p.token? slice with
    | none =>
      rw [go_malformed hu hm ht] at hscan
      cases hscan
    | some t =>
      rw [go_token hu hm ht] at hscan
      rw [go_token hu hm ht, go_token (hm.isMatch.startsUnblank rest') (hm.spaced hr) ht,
        ih _ _ hscan]

/-- What is found to be a token is the longest match. -/
theorem Spaced.lexeme {gap wide rest rest' : List Char} (slice : List Char) {t : Token}
    (hg : Widens wide gap) (h : Lexeme.ofHead? (slice ++ rest) = some (.token t slice.length))
    (hr : Spaced rest rest') :
    Spaced (gap ++ (slice ++ rest)) (wide ++ (slice ++ rest')) := by
  have hfound := Lexeme.found_ofHead? (slice ++ rest)
  rw [h] at hfound
  cases hfound with
  | @token p found _ _ hm hlen _ =>
    have hslice : found = slice := by
      rw [List.prefix_iff_eq_take.mp hm.begins, hlen, List.take_left]
    exact .token hg (hslice ▸ hm) hr

namespace Session

/-- **More blanks between tokens change nothing.** Where a text is made of tokens to its end, the
text with runs of blanks put in before, between and behind its tokens has the same tokens. So it is
the same expression, or none for the same reason, and in every session its evaluation gives the same
result and leaves the same session. -/
theorem evaluate_spaced {text text' : String} (h : Spaced text.toList text'.toList)
    (hscan : (scan text.toList).failure = none) :
    scan text'.toList = scan text.toList ∧ Expr.parse text' = Expr.parse text ∧
      ∀ s : Session, s.evaluate text' = s.evaluate text := by
  have htokens : scan text'.toList = scan text.toList := Scan.go_spaced h 0 0 hscan
  have hparse : Expr.parse text' = Expr.parse text := by
    rw [Expr.parse, Expr.parse, htokens]
  refine ⟨htokens, hparse, fun s => ?_⟩
  rw [evaluate, evaluate, hparse]

/-- The first `!` and `!=` touch and are torn apart, other tokens go on touching. -/
theorem evaluate_spaced_touching :
    Spaced "0b11!!=6 <2.".toList "\t0b11! !=6\t \n< 2.\r".toList ∧
    (scan "0b11!!=6 <2.".toList).failure = none ∧
    scan "\t0b11! !=6\t \n< 2.\r".toList = scan "0b11!!=6 <2.".toList ∧
    Expr.parse "\t0b11! !=6\t \n< 2.\r" = Expr.parse "0b11!!=6 <2." ∧
    ∀ s : Session, s.evaluate "\t0b11! !=6\t \n< 2.\r" = s.evaluate "0b11!!=6 <2." := by
  have run : ∀ wide : List Char, wide.all Text.isBlank = true → Widens wide [] :=
    fun wide h => ⟨List.nil_sublist wide, List.all_eq_true.mp h⟩
  have hgap : Widens ['\t', ' ', '\n'] [' '] := ⟨by decide, List.all_eq_true.mp rfl⟩
  have hspaced : Spaced "0b11!!=6 <2.".toList "\t0b11! !=6\t \n< 2.\r".toList := by
    refine .lexeme ['0', 'b', '1', '1'] (run ['\t'] rfl) (by rfl) ?_
    refine .lexeme ['!'] .nil (by rfl) ?_
    refine .lexeme ['!', '='] (run [' '] rfl) (by rfl) ?_
    refine .lexeme ['6'] .nil (by rfl) ?_
    refine .lexeme ['<'] hgap (by rfl) ?_
    refine .lexeme ['2', '.'] (run [' '] rfl) (by rfl) ?_
    exact .finish (run ['\r'] rfl)
  have hscan : (scan "0b11!!=6 <2.".toList).failure = none := by decide +kernel
  obtain ⟨htokens, hparse, hvalue⟩ := evaluate_spaced hspaced hscan
  exact ⟨hspaced, hscan, htokens, hparse, hvalue⟩

end Session

end Reckon
