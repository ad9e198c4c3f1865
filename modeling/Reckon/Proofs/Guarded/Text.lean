import Mathlib.Tactic.SplitIfs
import Reckon.Evaluation.Basic
import Reckon.Proofs.Decimal.Literal
import Reckon.Proofs.Guarded.Basic

/-!
# Guarded reading and writing of decimals

A literal is cut at the byte offset of its exponent mark. The digits of a decimal are cut where the
point goes, at an offset that is the difference of their length and the scale. Both are safe: the
mark is one byte long, and so is each digit.

Results:
* `ofLiteral?_eq`: the reading of a literal, whatever text it is given.
* `render_eq`, `renderExpr_eq`: the text of every decimal and of every expression.
* `message_eq`: what an error says.
-/

namespace Reckon

open Decimal (AllDigits)

/-- Every character of these is a byte long. -/
theorem utf8Size_of_lt {c : Char} (h : c.toNat < 128) : c.utf8Size = 1 :=
  Char.utf8Size_eq_one_iff.mpr (by
    have h' : c.val.toNat < 128 := h
    exact UInt32.le_iff_toNat_le.mpr (by simpa using Nat.le_of_lt_succ h'))

theorem byteLength_of_allDigits {digits : List Char} (h : AllDigits digits) :
    byteLength digits = digits.length := by
  induction digits with
  | nil => rfl
  | cons c rest ih =>
    have hc := isDigit_toNat.mp (h c List.mem_cons_self)
    rw [byteLength_cons, utf8Size_of_lt (by omega), ih fun d hd => h d (List.mem_cons_of_mem c hd),
      List.length_cons, Nat.add_comm]

namespace Guarded

/-! ## Reading -/

/-- The byte offset of the first character with the property. -/
def findOffset? (p : Char → Bool) : List Char → Option Nat
  | [] => none
  | c :: rest => if p c then some 0 else (findOffset? p rest).map (c.utf8Size + ·)

/-- The decimal of a mantissa and an exponent. -/
def ofMantissa? (mantissa : List Char) (exponent : Int) : Option Decimal :=
  let whole := mantissa.takeWhile (· ≠ '.')
  let fraction := (mantissa.dropWhile (· ≠ '.')).drop 1
  if whole ++ fraction ≠ [] ∧ (whole ++ fraction).all Char.isDigit then
    (Scale.ofInt? (byteLength fraction - exponent)).map fun scale =>
      ⟨ofDigits 10 (whole ++ fraction), scale⟩
  else
    none

/-- The decimal that an unsigned literal stands for. -/
def ofLiteral? (text : List Char) : Except Fault (Option Decimal) :=
  match findOffset? Decimal.isExponentMark text with
  | some index => do
    let (_, digits) ← cutAt text (index + 1)
    match Decimal.exponent? digits with
    | some exponent =>
      let (mantissa, _) ← cutAt text index
      return ofMantissa? mantissa exponent
    | none => return none
  | none => .ok (ofMantissa? text 0)

/-- The first character with the property stands where those without it end. -/
theorem findOffset?_eq (p : Char → Bool) (text : List Char) : findOffset? p text =
    match text.dropWhile (!p ·) with
    | [] => none
    | _ :: _ => some (byteLength (text.takeWhile (!p ·))) := by
  induction text with
  | nil => rfl
  | cons c rest ih =>
    by_cases hc : p c = true
    · simp [findOffset?, hc]
    · rw [findOffset?, if_neg hc, ih]
      cases h : rest.dropWhile (!p ·) <;> simp [hc, h, byteLength_cons]

/-- A length in bytes is a number of digits, where there are nothing but digits. -/
theorem ofMantissa?_eq (mantissa : List Char) (exponent : Int) : ofMantissa? mantissa exponent =
    let whole := mantissa.takeWhile (· ≠ '.')
    let fraction := (mantissa.dropWhile (· ≠ '.')).drop 1
    if whole ++ fraction ≠ [] ∧ (whole ++ fraction).all Char.isDigit then
      (Scale.ofInt? (fraction.length - exponent)).map fun scale =>
        ⟨ofDigits 10 (whole ++ fraction), scale⟩
    else none := by
  simp only [ofMantissa?]
  split_ifs with h
  · have hd : AllDigits ((mantissa.dropWhile (· ≠ '.')).drop 1) :=
      (Decimal.allDigits_append.mp (List.all_eq_true.mp h.2)).2
    rw [byteLength_of_allDigits hd]
  · rfl

theorem byteLength_mark {mark : Char} (h : Decimal.isExponentMark mark = true) :
    byteLength [mark] = 1 := by
  rw [Decimal.isExponentMark, Bool.or_eq_true, decide_eq_true_iff, decide_eq_true_iff] at h
  rcases h with rfl | rfl <;> rfl

/-- **The reading of a literal** is free of faults, whatever text it is given. -/
theorem ofLiteral?_eq (text : List Char) : ofLiteral? text = .ok (Decimal.ofLiteral? text) := by
  have hsplit := text.takeWhile_append_dropWhile (p := (!Decimal.isExponentMark ·))
  have hmark := List.head?_dropWhile_not (!Decimal.isExponentMark ·) text
  unfold ofLiteral? Decimal.ofLiteral?
  rw [findOffset?_eq]
  generalize text.takeWhile (!Decimal.isExponentMark ·) = front at *
  cases hback : text.dropWhile (!Decimal.isExponentMark ·) with
  | nil =>
    rw [hback, List.append_nil] at hsplit
    rw [hsplit, ofMantissa?_eq]
    rfl
  | cons mark rest =>
    rw [hback] at hsplit hmark
    have hone : byteLength [mark] = 1 := byteLength_mark (by simpa using hmark)
    have hfront : cutAt text (byteLength front) = .ok (front, mark :: rest) := by
      rw [← hsplit, cutAt_append]
    have hbehind : cutAt text (byteLength front + 1) = .ok (front ++ [mark], rest) := by
      rw [← hsplit, List.append_cons, ← hone, ← byteLength_append, cutAt_append]
    simp only [hfront, hbehind, ok_bind]
    cases Decimal.exponent? rest with
    | none => rfl
    | some exponent => exact congrArg Except.ok (ofMantissa?_eq front exponent)

/-! ## Writing -/

/-- The digits with a point in front of the last `scale` of them. -/
def plain (digits : List Char) (scale : Nat) : Except Fault (List Char) :=
  if scale = 0 then .ok digits
  else if scale < byteLength digits then do
    let (whole, fraction) ← cutAt digits (← subtract (byteLength digits) scale)
    return whole ++ '.' :: fraction
  else do
    let zeros ← subtract scale (byteLength digits)
    return '0' :: '.' :: (List.replicate zeros '0' ++ digits)

/-- The first digit, the others behind the point, and the exponent with its sign. -/
def scientific (digits : List Char) (exponent : Int) : Except Fault (List Char) := do
  let (first, rest) ← cutAt digits 1
  return first ++ (if rest = [] then [] else '.' :: rest) ++
    'E' :: (if exponent < 0 then '-' else '+') :: Nat.toDigits 10 exponent.natAbs

/-- The text of a decimal, character by character. -/
def chars (d : Decimal) : Except Fault (List Char) := do
  let digits := Nat.toDigits 10 d.unscaled.natAbs
  let sign := if d.unscaled < 0 then ['-'] else []
  if 0 ≤ d.scale.toInt ∧ -6 ≤ d.adjusted then
    return sign ++ (← plain digits (← toLength d.scale.toInt))
  else
    return sign ++ (← scientific digits d.adjusted)

/-- The text of a decimal. -/
def render (d : Decimal) : Except Fault String := do
  return String.ofList (← chars d)

/-- Digits can be cut behind any number of them. -/
theorem cutAt_digits {digits : List Char} (h : AllDigits digits) {count : Nat}
    (hc : count ≤ digits.length) :
    cutAt digits count = .ok (digits.take count, digits.drop count) := by
  have hfront : byteLength (digits.take count) = count := by
    rw [byteLength_of_allDigits fun c hc => h c (List.mem_of_mem_take hc), List.length_take,
      Nat.min_eq_left hc]
  have hcut := cutAt_append (digits.take count) (digits.drop count)
  rwa [List.take_append_drop, hfront] at hcut

theorem plain_eq {digits : List Char} (h : AllDigits digits) (scale : Nat) :
    plain digits scale = .ok (Decimal.plain digits scale) := by
  unfold plain Decimal.plain
  rw [byteLength_of_allDigits h]
  split_ifs with h0 hlt
  · rfl
  · rw [subtract_ok (Nat.le_of_lt hlt)]
    rw [ok_bind, cutAt_digits h (Nat.sub_le _ _)]
    rfl
  · rw [subtract_ok (Nat.le_of_not_lt hlt)]
    rfl

theorem scientific_eq {digits : List Char} (h : AllDigits digits) (hne : digits ≠ [])
    (exponent : Int) : scientific digits exponent = .ok (Decimal.scientific digits exponent) := by
  have hpos : 1 ≤ digits.length := List.length_pos_iff.mpr hne
  unfold scientific Decimal.scientific
  rw [cutAt_digits h hpos]
  have hrest : digits.drop 1 = [] ↔ digits.length ≤ 1 := List.drop_eq_nil_iff
  simp only [← hrest]
  rfl

theorem chars_eq (d : Decimal) : chars d = .ok d.chars := by
  have hd := Decimal.allDigits_toDigits d.unscaled.natAbs
  have hne : Nat.toDigits 10 d.unscaled.natAbs ≠ [] :=
    List.ne_nil_of_length_pos Nat.length_toDigits_pos
  have hupper := d.scale.upper
  simp only [chars, Decimal.chars]
  by_cases h : 0 ≤ d.scale.toInt ∧ -6 ≤ d.adjusted
  · rw [if_pos h, if_pos h, toLength_ok h.1 (by omega), ok_bind, plain_eq hd]
    rfl
  · rw [if_neg h, if_neg h, scientific_eq hd hne]
    rfl

/-- **The text of a decimal** is written without faults. -/
theorem render_eq (d : Decimal) : render d = .ok d.render := by
  rw [render, chars_eq]
  rfl

/-! ## Messages -/

mutual

/-- The text of an expression, every operator in parentheses. -/
def renderExpr : Expr → Except Fault String
  | .num value => render value
  | .var name => .ok name
  | .unary .not operand => do return "(!" ++ (← renderExpr operand) ++ ")"
  | .unary .factorial operand => do return "(" ++ (← renderExpr operand) ++ "!)"
  | .binary op left right => do
    return "(" ++ (← renderExpr left) ++ " " ++ op.symbol.text ++ " " ++ (← renderExpr right) ++ ")"
  | .assign target value => do
    return "(" ++ (← renderExpr target) ++ " = " ++ (← renderExpr value) ++ ")"
  | .call name _ arguments => do return name ++ "(" ++ (← renderAll arguments) ++ ")"

/-- The texts of expressions with commas between them. -/
def renderAll : List Expr → Except Fault String
  | [] => .ok ""
  | [e] => renderExpr e
  | e :: rest => do return (← renderExpr e) ++ ", " ++ (← renderAll rest)

end

/-- What an arithmetic error says. -/
def arithmeticMessage : ArithmeticError → Except Fault String
  | .exponentOutOfRange exponent => do
    return "exponent " ++ (← render exponent) ++ " is out of range"
  | .notIntegral operation operand => do
    return operation ++ ": " ++ (← render operand) ++ " is not an integer"
  | error => .ok error.message

/-- What an error says. -/
def message : EvalError → Except Fault String
  | .notAssignable target => do return "can't assign to " ++ (← renderExpr target)
  | .arithmetic error => arithmeticMessage error
  | error => .ok error.message

mutual

theorem renderExpr_eq : ∀ e : Expr, renderExpr e = .ok e.render
  | .num value => by simpa [renderExpr, Expr.render] using render_eq value
  | .var name => by simp [renderExpr, Expr.render]
  | .unary .not operand => by
    rw [renderExpr, renderExpr_eq operand, Expr.render]
    rfl
  | .unary .factorial operand => by
    rw [renderExpr, renderExpr_eq operand, Expr.render]
    rfl
  | .binary op left right => by
    rw [renderExpr, renderExpr_eq left, renderExpr_eq right, Expr.render]
    rfl
  | .assign target value => by
    rw [renderExpr, renderExpr_eq target, renderExpr_eq value, Expr.render]
    rfl
  | .call name f arguments => by
    rw [renderExpr, renderAll_eq arguments, Expr.render]
    rfl

theorem renderAll_eq : ∀ arguments : List Expr, renderAll arguments = .ok (Expr.renderAll arguments)
  | [] => by rw [renderAll, Expr.renderAll]
  | [e] => by rw [renderAll, Expr.renderAll, renderExpr_eq e]
  | e :: e' :: rest => by
    rw [renderAll, Expr.renderAll, renderExpr_eq e, renderAll_eq (e' :: rest)]
    · rfl
    all_goals exact List.cons_ne_nil _ _

end

theorem arithmeticMessage_eq (error : ArithmeticError) :
    arithmeticMessage error = .ok error.message := by
  cases error with
  | exponentOutOfRange exponent =>
    rw [arithmeticMessage, render_eq]
    rfl
  | notIntegral operation operand =>
    rw [arithmeticMessage, render_eq]
    rfl
  | _ => simp only [arithmeticMessage]

/-- **What an error says** is written without faults. -/
theorem message_eq (error : EvalError) : message error = .ok error.message := by
  cases error with
  | notAssignable target =>
    rw [message, renderExpr_eq]
    rfl
  | arithmetic error => exact arithmeticMessage_eq error
  | _ => simp only [message]

end Guarded

end Reckon
