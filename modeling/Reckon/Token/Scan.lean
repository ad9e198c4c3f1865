import Reckon.SyntaxError
import Reckon.Text.Blank
import Reckon.Token.Lexeme

/-!
# Scanning

`scan` cuts a text into tokens: it skips blanks, takes the longest lexeme, and goes on behind it.
It stops at the end of the text or at the first place where no lexeme starts, and then the tokens
before that place are its result together with the error. An error names the byte offset of the
place and the character there, or all of a literal that stands for no decimal.

A `Cursor` takes these steps one at a time, as a reader asks for the tokens. Follows `Lexer` with
its `current` and `advance` (specification, 4.2).
-/

namespace Reckon

/-- The tokens of a text up to its end, or up to the place where it is no token. -/
structure Scan where
  tokens : List Token
  failure : Option SyntaxError
deriving DecidableEq

namespace Scan

/-- The token in front of what follows. -/
def cons (t : Token) (s : Scan) : Scan := ⟨t :: s.tokens, s.failure⟩

/-- No tokens, because of `text` at `offset`. -/
def refuse (text : List Char) (offset : Nat) : Scan :=
  ⟨[], some (.unexpectedCharacter (String.ofList text) offset)⟩

/-- Scans a text that starts at the given byte offset and whose first `skip` characters belong to
the lexeme before it. -/
def go (offset skip : Nat) : List Char → Scan
  | [] => ⟨[], none⟩
  | c :: rest =>
    let next := offset + c.utf8Size
    match skip with
    | skip + 1 => go next skip rest
    | 0 =>
      if Text.isBlank c then go next 0 rest
      else
        match Lexeme.ofHead? (c :: rest) with
        | some (.token t length) => cons t (go next (length - 1) rest)
        | some (.malformed length) => refuse ((c :: rest).take length) offset
        | none => refuse [c] offset

end Scan

/-- The tokens of a text. -/
def scan (text : List Char) : Scan := Scan.go 0 0 text

/-- The length of a text in bytes. -/
def byteLength (text : List Char) : Nat := (String.ofList text).utf8ByteSize

/-- The token that a reader looks at, none behind the end, and the text behind the token. -/
structure Cursor where
  current : Option Token
  offset : Nat
  rest : List Char

namespace Cursor

/-- In front of the first token. -/
def start (text : List Char) : Cursor := ⟨none, 0, text⟩

/-- Moves to the next token. -/
def advance (c : Cursor) : Except SyntaxError Cursor :=
  let rest := c.rest.dropWhile Text.isBlank
  let offset := c.offset + byteLength (c.rest.takeWhile Text.isBlank)
  match rest with
  | [] => .ok ⟨none, offset, []⟩
  | first :: _ =>
    match Lexeme.ofHead? rest with
    | some (.token t length) =>
      .ok ⟨some t, offset + byteLength (rest.take length), rest.drop length⟩
    | some (.malformed length) =>
      .error (.unexpectedCharacter (String.ofList (rest.take length)) offset)
    | none => .error (.unexpectedCharacter (String.ofList [first]) offset)

/-- Moves on by so many tokens. -/
def after : Nat → Cursor → Except SyntaxError Cursor
  | 0, c => .ok c
  | k + 1, c => c.advance.bind (after k)

end Cursor

end Reckon
