import Reckon.Token.Basic

/-!
# Syntax errors

Why a text is no expression. Where a token is named, `none` stands for the end of the text. Follows
the errors of the lexer and the parser in `Error` (specification, 7 and 10.2).
-/

namespace Reckon

/-- Why a text is no expression. -/
inductive SyntaxError
  /-- No token starts at this byte offset, or the literal there stands for no decimal. -/
  | unexpectedCharacter (text : String) (offset : Nat)
  /-- One particular token was needed. -/
  | expectedToken (expected found : Option Token)
  /-- An operand was needed, and the token starts none. -/
  | unexpectedToken (found : Option Token)
deriving DecidableEq

/-- What the error says. -/
def SyntaxError.message : SyntaxError → String
  | .unexpectedCharacter text offset =>
    "unexpected character '" ++ text ++ "' at offset " ++ toString offset
  | .expectedToken expected found =>
    "expected " ++ Token.describe expected ++ ", got " ++ Token.describe found ++ " instead"
  | .unexpectedToken found => "unexpected " ++ Token.describe found

end Reckon
