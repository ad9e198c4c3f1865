import Reckon.Decimal.Basic

/-!
# Tokens

An expression is written with numbers, identifiers and a fixed set of symbols. In messages a token
is named by its kind: a symbol by its own text in quotes, a number or an identifier by that word,
the end of the text by `end of input`. Follows `Token` and its `quoted` (specification, 3 and 4.2).
-/

namespace Reckon

/-- The symbols of the language. -/
inductive Symbol
  | plus | minus | star | slash | percent | caret
  | shiftLeft | shiftRight
  | ampersand | pipe | tilde | bang
  | equals | equalEqual | bangEqual | less | lessEqual | greater | greaterEqual
  | leftParen | rightParen | comma
  | root
deriving DecidableEq, Repr

namespace Symbol

/-- How the symbol is written. -/
def text : Symbol → String
  | plus => "+"
  | minus => "-"
  | star => "*"
  | slash => "/"
  | percent => "%"
  | caret => "^"
  | shiftLeft => "<<"
  | shiftRight => ">>"
  | ampersand => "&"
  | pipe => "|"
  | tilde => "~"
  | bang => "!"
  | equals => "="
  | equalEqual => "=="
  | bangEqual => "!="
  | less => "<"
  | lessEqual => "<="
  | greater => ">"
  | greaterEqual => ">="
  | leftParen => "("
  | rightParen => ")"
  | comma => ","
  | root => "√"

/-- The longest symbol that the text begins with. -/
def ofHead? : List Char → Option Symbol
  | '<' :: '<' :: _ => some shiftLeft
  | '<' :: '=' :: _ => some lessEqual
  | '<' :: _ => some less
  | '>' :: '>' :: _ => some shiftRight
  | '>' :: '=' :: _ => some greaterEqual
  | '>' :: _ => some greater
  | '=' :: '=' :: _ => some equalEqual
  | '=' :: _ => some equals
  | '!' :: '=' :: _ => some bangEqual
  | '!' :: _ => some bang
  | '+' :: _ => some plus
  | '-' :: _ => some minus
  | '*' :: _ => some star
  | '/' :: _ => some slash
  | '%' :: _ => some percent
  | '^' :: _ => some caret
  | '&' :: _ => some ampersand
  | '|' :: _ => some pipe
  | '~' :: _ => some tilde
  | '(' :: _ => some leftParen
  | ')' :: _ => some rightParen
  | ',' :: _ => some comma
  | '√' :: _ => some root
  | _ => none

end Symbol

/-- The smallest units of an expression that mean something. -/
inductive Token
  | number (value : Decimal)
  | identifier (name : String)
  | symbol (s : Symbol)
deriving DecidableEq

namespace Token

/-- The kind of a token in words, a symbol being its own kind. -/
def kind : Token → String
  | number _ => "number"
  | identifier _ => "identifier"
  | symbol s => s.text

/-- How a message names a token, or the end of the text where there is none. -/
def describe : Option Token → String
  | none => "end of input"
  | some (symbol s) => "'" ++ s.text ++ "'"
  | some t => t.kind

end Token

end Reckon
