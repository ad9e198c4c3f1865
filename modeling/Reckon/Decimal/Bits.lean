import Reckon.Decimal.Integral

/-!
# Bits of integers

Integers are taken as infinite sequences of bits in two's complement: a nonnegative integer ends
in zeros, a negative one in ones, and `-n - 1` has every bit of `n` inverted. The operations on
decimals take integral operands only and give an integer at scale 0. Follows `fold` with `and`, `or`
and `xor`, `not` and `shift` (specification, 4.1 and 10.6).
-/

namespace Reckon

namespace Bits

/-- The conjunction of corresponding bits. -/
def and : Int → Int → Int
  | .ofNat m, .ofNat n => .ofNat (m &&& n)
  | .ofNat m, .negSucc n => .ofNat (m ^^^ (m &&& n))
  | .negSucc m, .ofNat n => .ofNat (n ^^^ (n &&& m))
  | .negSucc m, .negSucc n => .negSucc (m ||| n)

/-- The disjunction of corresponding bits. -/
def or : Int → Int → Int
  | .ofNat m, .ofNat n => .ofNat (m ||| n)
  | .ofNat m, .negSucc n => .negSucc (n ^^^ (n &&& m))
  | .negSucc m, .ofNat n => .negSucc (m ^^^ (m &&& n))
  | .negSucc m, .negSucc n => .negSucc (m &&& n)

/-- The exclusive disjunction of corresponding bits. -/
def xor : Int → Int → Int
  | .ofNat m, .ofNat n => .ofNat (m ^^^ n)
  | .ofNat m, .negSucc n => .negSucc (m ^^^ n)
  | .negSucc m, .ofNat n => .negSucc (m ^^^ n)
  | .negSucc m, .negSucc n => .ofNat (m ^^^ n)

/-- Every bit inverted. -/
def not (n : Int) : Int := -n - 1

end Bits

namespace Decimal

/-- A bit operation on two operands or more, from left to right. -/
def foldBits (operation : String) (combine : Int → Int → Int) (first : Decimal)
    (others : List Decimal) : Except ArithmeticError Decimal := do
  let first ← integerOperand operation first
  let others ← others.mapM (integerOperand operation)
  return ofInt (others.foldl combine first)

/-- Every bit of an integer inverted. -/
def invertBits (d : Decimal) : Except ArithmeticError Decimal := do
  let n ← integerOperand "BitNot" d
  return ofInt (Bits.not n)

/-- An integer shifted, to the left if `left`, to the right otherwise; a negative amount shifts
the other way. Bits that fall off at the right end are lost, so negative values round toward minus
infinity. -/
def shift (operation : String) (left : Bool) (value amount : Decimal) :
    Except ArithmeticError Decimal := do
  let n ← integerOperand operation value
  let amount ← integerOperand operation amount
  let bits ← checkMagnitude 32 "shift amount" amount
  return ofInt (if left != (amount < 0 : Bool) then n <<< bits else n >>> bits)

end Decimal

end Reckon
