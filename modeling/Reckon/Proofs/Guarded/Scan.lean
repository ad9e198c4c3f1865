import Reckon.Expr.Reader
import Reckon.Proofs.Guarded.Text

/-!
# Guarded reading of texts

A text is cut by bytes where a number literal is read: the digits of a radix literal stand behind
its first two bytes, and a decimal literal is cut at its exponent mark. The pattern of a radix
literal has been matched before, so its first two characters are a zero and a letter, a byte each.

Results:
* `number?_eq`: the number literal that a text begins with.
* `scan_eq`, `parse_eq`: the tokens of every text, and the expression that it is.
-/

namespace Reckon.Guarded

/-- The number of an integer literal of the given length, behind its first two bytes. -/
def radixNumber (radix length : Nat) (text : List Char) : Except Fault Decimal := do
  let (_, digits) ← cutAt (text.take length) 2
  return .ofInt (ofDigits radix digits)

/-- The number literal that the text begins with. -/
def number? (text : List Char) : Except Fault (Option Lexeme) :=
  let hexadecimal := Lexeme.radixLength 16 'x' text
  let binary := Lexeme.radixLength 2 'b' text
  let decimal := Lexeme.decimalLength text
  if hexadecimal ≠ 0 then do
    return some (.token (.number (← radixNumber 16 hexadecimal text)) hexadecimal)
  else if binary ≠ 0 then do
    return some (.token (.number (← radixNumber 2 binary text)) binary)
  else if decimal ≠ 0 then do
    match ← ofLiteral? (text.take decimal) with
    | some value => return some (.token (.number value) decimal)
    | none => return some (.malformed decimal)
  else return none

/-- The longest lexeme that the text begins with. -/
def ofHead? (text : List Char) : Except Fault (Option Lexeme) :=
  match Lexeme.symbol? text with
  | some lexeme => return some lexeme
  | none => do return (← number? text).or (Lexeme.identifier? text)

/-- Scans a text that starts at the given byte offset and whose first `skip` characters belong to
the lexeme before it. -/
def go (offset skip : Nat) : List Char → Except Fault Scan
  | [] => return ⟨[], none⟩
  | c :: rest =>
    let next := offset + c.utf8Size
    match skip with
    | skip + 1 => go next skip rest
    | 0 =>
      if Text.isBlank c then go next 0 rest
      else do
        match ← ofHead? (c :: rest) with
        | some (.token t length) => return .cons t (← go next (length - 1) rest)
        | some (.malformed length) => return .refuse ((c :: rest).take length) offset
        | none => return .refuse [c] offset

/-- The tokens of a text. -/
def scan (text : List Char) : Except Fault Scan := go 0 0 text

/-- The expression that a text is. -/
def parse (text : String) : Except Fault (Except SyntaxError Expr) := do
  let s ← scan text.toList
  match Expr.ofTokens s.tokens with
  | .error r => return .error (s.errorAt r)
  | .ok e => return (s.next []).map fun _ => e

/-! ## Literals -/

/-- A radix literal is a zero, its mark and digits. -/
theorem exists_of_radixLength {radix : Nat} {letter : Char} {text : List Char}
    (h : Lexeme.radixLength radix letter text ≠ 0) : ∃ mark rest count,
      text = '0' :: mark :: rest ∧ mark.toLower = letter ∧
        Lexeme.radixLength radix letter text = count + 2 := by
  unfold Lexeme.radixLength at h ⊢
  split at h
  · rename_i mark rest
    have hboth : mark.toLower = letter ∧ (rest.takeWhile (isDigitIn radix)).length ≠ 0 :=
      Decidable.byContradiction fun hnot => h (if_neg hnot)
    exact ⟨mark, rest, _, rfl, hboth.1, (if_pos hboth).trans (Nat.add_comm ..)⟩
  · exact absurd rfl h

/-- The mark of a radix literal is a letter, which is a byte long. -/
theorem radixNumber_eq {radix : Nat} {letter : Char} (hletter : letter.toNat < 128)
    {text : List Char} (h : Lexeme.radixLength radix letter text ≠ 0) :
    radixNumber radix (Lexeme.radixLength radix letter text) text =
      .ok (Lexeme.radixNumber radix (Lexeme.radixLength radix letter text) text) := by
  obtain ⟨mark, rest, count, rfl, hlower, hcount⟩ := exists_of_radixLength h
  have hmark : mark.toNat < 128 := by
    have hnat := Lexeme.toNat_toLower mark
    rw [hlower] at hnat
    split at hnat <;> omega
  have htwo : byteLength ['0', mark] = 2 := by
    rw [byteLength_cons, byteLength_singleton, utf8Size_of_lt hmark]
    rfl
  have hcut := cutAt_append ['0', mark] (rest.take count)
  rw [htwo] at hcut
  unfold radixNumber Lexeme.radixNumber
  rw [hcount, List.take_succ_cons, List.take_succ_cons]
  exact congrArg (· >>= _) hcut

/-- **The number literal** that a text begins with is read without faults. -/
theorem number?_eq (text : List Char) : number? text = .ok (Lexeme.number? text) := by
  simp only [number?, Lexeme.number?]
  split_ifs with hhexadecimal hbinary hdecimal
  · rw [radixNumber_eq (by decide) hhexadecimal]
    rfl
  · rw [radixNumber_eq (by decide) hbinary]
    rfl
  · rw [ofLiteral?_eq, ok_bind]
    cases Decimal.ofLiteral? (text.take (Lexeme.decimalLength text)) <;> rfl
  · rfl

/-! ## Texts -/

theorem ofHead?_eq (text : List Char) : ofHead? text = .ok (Lexeme.ofHead? text) := by
  unfold ofHead? Lexeme.ofHead?
  rw [number?_eq]
  cases Lexeme.symbol? text <;> rfl

theorem go_eq (text : List Char) (offset skip : Nat) :
    go offset skip text = .ok (Scan.go offset skip text) := by
  induction text generalizing offset skip with
  | nil => rfl
  | cons c rest ih =>
    cases skip with
    | succ skip => exact ih _ _
    | zero =>
      simp only [go, Scan.go, ofHead?_eq, ok_bind, ih]
      by_cases hc : Text.isBlank c = true
      · rw [if_pos hc, if_pos hc]
      · rw [if_neg hc, if_neg hc]
        rcases Lexeme.ofHead? (c :: rest) with _ | (_ | _) <;> rfl

/-- **The tokens of a text** are read without faults. -/
theorem scan_eq (text : List Char) : scan text = .ok (Reckon.scan text) := go_eq text 0 0

/-- **The expression that a text is** is read without faults. -/
theorem parse_eq (text : String) : parse text = .ok (Expr.parse text) := by
  simp only [parse, Expr.parse, scan_eq, ok_bind]
  cases Expr.ofTokens (Reckon.scan text.toList).tokens <;> rfl

end Reckon.Guarded
