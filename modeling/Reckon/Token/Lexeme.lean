import Reckon.Decimal.Literal
import Reckon.Text.Letter
import Reckon.Text.Numeral
import Reckon.Token.Basic

/-!
# Lexemes

A lexeme is a stretch of text that is one token. The patterns are

* decimal literals, `12`, `1.`, `1.5`, `.5`, each possibly with an exponent `e5`, `E+5`, `e-5`;
* hexadecimal literals `0x1f` and binary literals `0b101`;
* identifiers, a letter or `_` followed by letters, numerals and `_`. The letters `π`, `Σ` and `Π`
  take no part in them: they, `∑` and `∏` are identifiers of one character each;
* the symbols.

Each pattern has a function that measures the longest prefix of a text that matches it, 0 if none
does. Where two patterns match, the longer prefix wins: `0x1f` is one number, while `0x` is the
number `0` before the identifier `x`. Follows the patterns of `Token` and `parse_decimal`
(specification, 4.2 and 10.6).
-/

namespace Reckon

namespace Lexeme

/-- The length of the run of decimal digits that the text begins with. -/
def digitRun (text : List Char) : Nat := (text.takeWhile Char.isDigit).length

/-- The length of an exponent part. -/
def exponentLength : List Char → Nat
  | mark :: rest =>
    if Decimal.isExponentMark mark then
      let signs := match rest with
        | '+' :: _ | '-' :: _ => 1
        | _ => 0
      let digits := digitRun (rest.drop signs)
      if digits = 0 then 0 else 1 + signs + digits
    else 0
  | [] => 0

/-- The length of a decimal literal. -/
def decimalLength (text : List Char) : Nat :=
  let whole := digitRun text
  match text.drop whole with
  | '.' :: rest =>
    let fraction := digitRun rest
    if whole = 0 ∧ fraction = 0 then 0
    else whole + 1 + fraction + exponentLength (rest.drop fraction)
  | rest => if whole = 0 then 0 else whole + exponentLength rest

/-- The length of a literal in a radix, whose letter stands behind a zero. -/
def radixLength (radix : Nat) (letter : Char) : List Char → Nat
  | '0' :: mark :: rest =>
    let digits := (rest.takeWhile (isDigitIn radix)).length
    if mark.toLower = letter ∧ digits ≠ 0 then 2 + digits else 0
  | _ => 0

/-- Whether `c` is an identifier all by itself. -/
def standsAlone (c : Char) : Bool := c = 'π' || c = 'Σ' || c = 'Π' || c = '∑' || c = '∏'

/-- Whether a longer identifier may start with `c`. -/
def startsName (c : Char) : Bool := (Text.isLetter c || c = '_') && !standsAlone c

/-- Whether a longer identifier may go on with `c`. -/
def continuesName (c : Char) : Bool :=
  (Text.isLetter c || Text.isNumeral c || c = '_') && !standsAlone c

/-- The length of an identifier. -/
def identifierLength : List Char → Nat
  | c :: rest =>
    if standsAlone c then 1
    else if startsName c then 1 + (rest.takeWhile continuesName).length
    else 0
  | [] => 0

end Lexeme

/-- What a text begins with. -/
inductive Lexeme
  /-- A token, in the given number of characters. -/
  | token (token : Token) (length : Nat)
  /-- A literal of the given length whose scale does not fit in 64 bits. -/
  | malformed (length : Nat)

namespace Lexeme

/-- The number of an integer literal of the given length behind its two leading characters. -/
def radixNumber (radix length : Nat) (text : List Char) : Decimal :=
  .ofInt (ofDigits radix ((text.take length).drop 2))

/-- The number literal that the text begins with. -/
def number? (text : List Char) : Option Lexeme :=
  let hexadecimal := radixLength 16 'x' text
  let binary := radixLength 2 'b' text
  let decimal := decimalLength text
  if hexadecimal ≠ 0 then
    some (.token (.number (radixNumber 16 hexadecimal text)) hexadecimal)
  else if binary ≠ 0 then
    some (.token (.number (radixNumber 2 binary text)) binary)
  else if decimal ≠ 0 then
    match Decimal.ofLiteral? (text.take decimal) with
    | some value => some (.token (.number value) decimal)
    | none => some (.malformed decimal)
  else none

/-- The identifier that the text begins with. -/
def identifier? (text : List Char) : Option Lexeme :=
  let length := identifierLength text
  if length ≠ 0 then
    some (.token (.identifier (String.ofList (text.take length))) length)
  else none

/-- The symbol that the text begins with. -/
def symbol? (text : List Char) : Option Lexeme :=
  (Symbol.ofHead? text).map fun s => .token (.symbol s) s.text.length

/-- The longest lexeme that the text begins with. -/
def ofHead? (text : List Char) : Option Lexeme :=
  (symbol? text).or ((number? text).or (identifier? text))

end Lexeme

end Reckon
