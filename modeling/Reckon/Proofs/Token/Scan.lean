import Reckon.Proofs.Token.Lexeme
import Reckon.Token.Scan

/-!
# Scanning cuts a text into longest matches

`Cut offset text s` says what it means to cut a text that starts at the byte `offset`: in each step
all the blanks in front are skipped, the longest match behind them is the next token, and the text
behind it is cut in the same way. The run ends with the text, with a longest match that stands for
no decimal, or with a character that no match begins with.

Results:
* `go_of_cut`, `cut_go`: `Scan.go` computes the one way to cut a text.
* `after_current`: the tokens that a cursor comes by are those of the scan, one after the other;
  then it meets the error, or it stays at the end of the text.
* `scan_longest_match`: both for the scan of a text from its beginning.
-/

namespace Reckon

@[simp] theorem byteLength_nil : byteLength [] = 0 := rfl

theorem byteLength_append (a b : List Char) : byteLength (a ++ b) = byteLength a + byteLength b := by
  rw [byteLength, String.ofList_append, String.utf8ByteSize_append, byteLength, byteLength]

theorem byteLength_singleton (c : Char) : byteLength [c] = c.utf8Size := by
  rw [byteLength, ← String.singleton_eq_ofList, String.utf8ByteSize_singleton]

theorem byteLength_cons (c : Char) (text : List Char) :
    byteLength (c :: text) = c.utf8Size + byteLength text := by
  rw [← List.singleton_append, byteLength_append, byteLength_singleton]

/-- Blanks and nothing else. -/
def Blanks (text : List Char) : Prop := ∀ c ∈ text, Text.isBlank c = true

/-- Whether the text begins with no blank. -/
def StartsUnblank (text : List Char) : Prop := ∀ c ∈ text.head?, Text.isBlank c = false

theorem blanks_takeWhile (text : List Char) : Blanks (text.takeWhile Text.isBlank) :=
  fun _ hc => of_mem_takeWhile hc

theorem startsUnblank_dropWhile (text : List Char) : StartsUnblank (text.dropWhile Text.isBlank) := by
  intro c hc
  have h := List.head?_dropWhile_not Text.isBlank text
  rw [Option.mem_def.mp hc] at h
  exact h

theorem Pattern.Matches.startsUnblank {p : Pattern} {slice : List Char} (h : p.Matches slice)
    (rest : List Char) : StartsUnblank (slice ++ rest) := by
  obtain ⟨c, more, rfl, hc⟩ := h.head
  rintro d ⟨⟩
  exact hc.isBlank

/-- The ways to cut a text that starts at a byte offset. -/
inductive Cut : Nat → List Char → Scan → Prop
  | finish {offset : Nat} {blanks : List Char} (hb : Blanks blanks) : Cut offset blanks ⟨[], none⟩
  | token {offset : Nat} {blanks slice rest : List Char} {p : Pattern} {t : Token} {s : Scan}
      (hb : Blanks blanks) (hu : StartsUnblank (slice ++ rest))
      (hm : LongestMatch (slice ++ rest) p slice) (ht : p.token? slice = some t)
      (hs : Cut (offset + byteLength blanks + byteLength slice) rest s) :
      Cut offset (blanks ++ (slice ++ rest)) (s.cons t)
  | malformed {offset : Nat} {blanks slice rest : List Char} {p : Pattern}
      (hb : Blanks blanks) (hu : StartsUnblank (slice ++ rest))
      (hm : LongestMatch (slice ++ rest) p slice) (ht : p.token? slice = none) :
      Cut offset (blanks ++ (slice ++ rest)) (.refuse slice (offset + byteLength blanks))
  | stray {offset : Nat} {blanks rest : List Char} {c : Char}
      (hb : Blanks blanks) (hu : StartsUnblank (c :: rest))
      (hnot : ∀ (p : Pattern) (slice : List Char), p.Matches slice → ¬ slice <+: c :: rest) :
      Cut offset (blanks ++ c :: rest) (.refuse [c] (offset + byteLength blanks))

namespace Scan

/-! ## The steps of the scan -/

theorem go_skip (text : List Char) (offset skip : Nat) :
    go offset skip text = go (offset + byteLength (text.take skip)) 0 (text.drop skip) := by
  induction text generalizing offset skip with
  | nil => simp [go]
  | cons c rest ih =>
    cases skip with
    | zero => rfl
    | succ skip =>
      rw [go, ih, List.take_succ_cons, List.drop_succ_cons, byteLength_cons, Nat.add_assoc]

theorem go_blanks {blanks : List Char} (hb : Blanks blanks) (offset : Nat) (rest : List Char) :
    go offset 0 (blanks ++ rest) = go (offset + byteLength blanks) 0 rest := by
  induction blanks generalizing offset with
  | nil => rfl
  | cons c blanks ih =>
    have hc : Text.isBlank c = true := hb c List.mem_cons_self
    rw [List.cons_append, go]
    simp only [hc, if_true]
    rw [ih fun d hd => hb d (List.mem_cons_of_mem c hd), byteLength_cons, Nat.add_assoc]

/-- In front of a character that is no blank the scan does what the lexeme there says. -/
theorem go_unblank {c : Char} {rest : List Char} (hu : StartsUnblank (c :: rest)) (offset : Nat) :
    go offset 0 (c :: rest) = match Lexeme.ofHead? (c :: rest) with
      | some (.token t length) => cons t (go (offset + c.utf8Size) (length - 1) rest)
      | some (.malformed length) => refuse ((c :: rest).take length) offset
      | none => refuse [c] offset := by
  have hc : Text.isBlank c = false := hu c rfl
  rcases hhead : Lexeme.ofHead? (c :: rest) with _ | (_ | _) <;> simp [go, hc, hhead]

theorem go_token {slice rest : List Char} {p : Pattern} {t : Token}
    (hu : StartsUnblank (slice ++ rest)) (hm : LongestMatch (slice ++ rest) p slice)
    (ht : p.token? slice = some t) (offset : Nat) :
    go offset 0 (slice ++ rest) = (go (offset + byteLength slice) 0 rest).cons t := by
  have hhead := Lexeme.ofHead?_of_longestMatch hm
  obtain ⟨c, more, rfl⟩ := List.exists_cons_of_ne_nil hm.isMatch.ne_nil
  rw [List.cons_append] at hu hhead ⊢
  rw [go_unblank hu, hhead, ht]
  simp only [List.length_cons, Nat.add_sub_cancel]
  rw [go_skip, List.take_left, List.drop_left, byteLength_cons, Nat.add_assoc]

theorem go_malformed {slice rest : List Char} {p : Pattern}
    (hu : StartsUnblank (slice ++ rest)) (hm : LongestMatch (slice ++ rest) p slice)
    (ht : p.token? slice = none) (offset : Nat) :
    go offset 0 (slice ++ rest) = refuse slice offset := by
  have hhead := Lexeme.ofHead?_of_longestMatch hm
  have htake : (slice ++ rest).take slice.length = slice := List.take_left
  obtain ⟨c, more, rfl⟩ := List.exists_cons_of_ne_nil hm.isMatch.ne_nil
  rw [List.cons_append] at hu hhead htake ⊢
  rw [go_unblank hu, hhead, ht]
  simp only [htake]

theorem go_stray {c : Char} {rest : List Char} (hu : StartsUnblank (c :: rest))
    (hnot : ∀ (p : Pattern) (slice : List Char), p.Matches slice → ¬ slice <+: c :: rest)
    (offset : Nat) : go offset 0 (c :: rest) = refuse [c] offset := by
  have hfound := Lexeme.found_ofHead? (c :: rest)
  rw [go_unblank hu]
  generalize Lexeme.ofHead? (c :: rest) = o at hfound
  cases hfound with
  | token h => exact absurd h.begins (hnot _ _ h.isMatch)
  | malformed h => exact absurd h.begins (hnot _ _ h.isMatch)
  | nothing => rfl

/-! ## The whole scan -/

/-- However a text is cut, that is what the scan gives. -/
theorem go_of_cut {offset : Nat} {text : List Char} {s : Scan} (h : Cut offset text s) :
    go offset 0 text = s := by
  induction h with
  | @finish offset blanks hb =>
    have h := go_blanks hb offset []
    rw [List.append_nil] at h
    exact h
  | token hb hu hm ht _ ih => rw [go_blanks hb, go_token hu hm ht, ih]
  | malformed hb hu hm ht => rw [go_blanks hb, go_malformed hu hm ht]
  | stray hb hu hnot => rw [go_blanks hb, go_stray hu hnot]

/-- What the scan gives is a way to cut the text. -/
theorem cut_go (offset : Nat) (text : List Char) : Cut offset text (go offset 0 text) := by
  -- each token is at least one character long
  induction hn : text.length using Nat.strongRecOn generalizing offset text with
  | ind n ih =>
    obtain ⟨blanks, rest, rfl, hb, hu⟩ : ∃ blanks rest, text = blanks ++ rest ∧ Blanks blanks ∧
        StartsUnblank rest :=
      ⟨_, _, List.takeWhile_append_dropWhile.symm, blanks_takeWhile text,
        startsUnblank_dropWhile text⟩
    rw [go_blanks hb]
    cases rest with
    | nil =>
      rw [List.append_nil]
      exact .finish hb
    | cons c rest =>
      have hfound := Lexeme.found_ofHead? (c :: rest)
      generalize Lexeme.ofHead? (c :: rest) = o at hfound
      cases hfound with
      | @token p slice t _ h hlen ht =>
        obtain ⟨tail, htail⟩ := h.begins
        rw [← htail] at h hu hn ⊢
        have hpos := List.length_pos_iff.mpr h.isMatch.ne_nil
        rw [go_token hu h ht]
        refine .token hb hu h ht (ih tail.length ?_ _ _ rfl)
        rw [← hn, List.length_append, List.length_append]
        omega
      | malformed h hlen ht =>
        obtain ⟨tail, htail⟩ := h.begins
        rw [← htail] at h hu ⊢
        rw [go_malformed hu h ht]
        exact .malformed hb hu h ht
      | nothing h =>
        have hnot : ∀ (p : Pattern) (slice : List Char), p.Matches slice → ¬ slice <+: c :: rest :=
          fun p slice => h p slice trivial
        rw [go_stray hu hnot]
        exact .stray hb hu hnot

/-- The token at a position, the error if the scan stops before it, and no token behind the end of
the text. -/
def nth (s : Scan) (k : Nat) : Except SyntaxError (Option Token) :=
  match s.tokens[k]?, s.failure with
  | some t, _ => .ok (some t)
  | none, some e => .error e
  | none, none => .ok none

theorem nth_cons_zero (t : Token) (s : Scan) : (s.cons t).nth 0 = .ok (some t) := rfl

theorem nth_cons_succ (t : Token) (s : Scan) (k : Nat) : (s.cons t).nth (k + 1) = s.nth k := rfl

end Scan

/-! ## One token at a time -/

namespace Cursor

/-- The scan of the text behind the cursor. -/
def ahead (c : Cursor) : Scan := Scan.go c.offset 0 c.rest

theorem ahead_eq (c : Cursor) : c.ahead =
    Scan.go (c.offset + byteLength (c.rest.takeWhile Text.isBlank)) 0
      (c.rest.dropWhile Text.isBlank) := by
  have h := Scan.go_blanks (blanks_takeWhile c.rest) c.offset (c.rest.dropWhile Text.isBlank)
  rwa [List.takeWhile_append_dropWhile] at h

/-- **What one step does to the scan ahead**: it takes off the first token, stays at the end, or
meets the error. -/
theorem advance_cases (c : Cursor) :
    (∃ d t, c.advance = .ok d ∧ d.current = some t ∧ c.ahead = d.ahead.cons t) ∨
    (∃ d, c.advance = .ok d ∧ d.current = none ∧ c.ahead = ⟨[], none⟩ ∧ d.ahead = ⟨[], none⟩) ∨
    (∃ e, c.advance = .error e ∧ c.ahead = ⟨[], some e⟩) := by
  have hu := startsUnblank_dropWhile c.rest
  rw [ahead_eq, advance]
  generalize c.rest.dropWhile Text.isBlank = rest at hu
  generalize c.offset + byteLength (c.rest.takeWhile Text.isBlank) = offset
  cases rest with
  | nil => exact Or.inr (Or.inl ⟨_, rfl, rfl, rfl, rfl⟩)
  | cons first rest =>
    have hfound := Lexeme.found_ofHead? (first :: rest)
    cases hhead : Lexeme.ofHead? (first :: rest) with
    | none =>
      rw [hhead] at hfound
      cases hfound with
      | nothing h =>
        dsimp only
        refine Or.inr (Or.inr ⟨_, rfl, ?_⟩)
        exact Scan.go_stray hu (fun p slice => h p slice trivial) offset
    | some lexeme =>
      rw [hhead] at hfound
      cases hfound with
      | @token p slice t n h hlen ht =>
        obtain ⟨tail, htail⟩ := h.begins
        dsimp only
        refine Or.inl ⟨_, t, rfl, rfl, ?_⟩
        rw [← htail] at h hu ⊢
        rw [Scan.go_token hu h ht, ahead, ← hlen, List.take_left, List.drop_left]
      | @malformed p slice n h hlen ht =>
        obtain ⟨tail, htail⟩ := h.begins
        dsimp only
        refine Or.inr (Or.inr ⟨_, rfl, ?_⟩)
        rw [← htail] at h hu ⊢
        rw [Scan.go_malformed hu h ht, ← hlen, List.take_left]
        rfl

/-- **A cursor comes by the tokens of the scan ahead, one after the other.** -/
theorem after_current (k : Nat) (c : Cursor) :
    (c.after (k + 1)).map current = c.ahead.nth k := by
  induction k generalizing c with
  | zero =>
    obtain ⟨d, t, hd, hcur, ha⟩ | ⟨d, hd, hcur, ha, -⟩ | ⟨e, he, ha⟩ := advance_cases c
    · rw [after, hd, ha, Scan.nth_cons_zero, ← hcur]
      rfl
    · rw [after, hd, ha]
      exact congrArg Except.ok hcur
    · rw [after, he, ha]
      rfl
  | succ k ih =>
    obtain ⟨d, t, hd, hcur, ha⟩ | ⟨d, hd, hcur, ha, had⟩ | ⟨e, he, ha⟩ := advance_cases c
    · rw [after, hd, ha, Scan.nth_cons_succ, ← ih d]
      rfl
    · rw [after, hd, ha]
      exact (ih d).trans (by rw [had]; rfl)
    · rw [after, he, ha]
      rfl

end Cursor

/-- **Scanning is longest-match tokenizing**: the scan of a text is the one way to cut it, and a
cursor at the beginning of the text comes by just its tokens, and behind them by its error or by the
end of the text, however often it is asked. -/
theorem scan_longest_match (text : List Char) :
    (∀ s, scan text = s ↔ Cut 0 text s) ∧
      ∀ k, ((Cursor.start text).after (k + 1)).map Cursor.current = (scan text).nth k := by
  refine ⟨fun s => ⟨?_, Scan.go_of_cut⟩, fun k => Cursor.after_current k _⟩
  rintro rfl
  exact Scan.cut_go 0 text

end Reckon
