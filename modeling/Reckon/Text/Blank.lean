/-!
# Blanks

Two classes of blank characters. Between the tokens of an expression stand only spaces, tabs,
line ends and form feeds. Around a line, every character that Unicode counts as white space is
trimmed. The first class is the one that `Token` skips; the second one belongs to the command line.
-/

namespace Reckon.Text

/-- Whether `c` may stand between tokens. -/
def isBlank (c : Char) : Bool :=
  c = ' ' || c = '\t' || c = '\r' || c = '\n' || c = '\x0c'

/-- Whether `c` is white space. -/
def isWhite (c : Char) : Bool :=
  let n := c.toNat
  (9 ≤ n && n ≤ 13) || n = 0x20 || n = 0x85 || n = 0xA0 || n = 0x1680 ||
    (0x2000 ≤ n && n ≤ 0x200A) || n = 0x2028 || n = 0x2029 || n = 0x202F || n = 0x205F ||
    n = 0x3000

/-- The text without white space at its ends. -/
def trim (text : List Char) : List Char :=
  ((text.dropWhile isWhite).reverse.dropWhile isWhite).reverse

end Reckon.Text
