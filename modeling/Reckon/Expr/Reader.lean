import Reckon.Expr.Level
import Reckon.Name
import Reckon.Token.Scan

/-!
# Reading expressions

`Expr.ofTokens` turns the tokens of a text into the tree that the grammar of `Reckon.Expr.Level`
gives them. Every level reads as much as it can and leaves the first token that it cannot use to
the level that asked for it, so a refusal names the first token that nothing could use.

A text is scanned only as far as its tokens are used: where the tokens run out and the scan went
wrong there, the scan's own error is reported, and an earlier token that is out of place comes
first.

The depth of recursion is bounded by a number that the length of the text sets: from one token to
the next there are never as many steps as `stepsPerToken`.

Follows `parse` with the functions of the levels (specification, 4.3). They have no such bound, and
they ask the lexer for one token at a time.
-/

namespace Reckon

/-- What was needed where reading stopped. -/
inductive Needed
  | operand
  | symbol (s : Symbol)
  | finish
deriving DecidableEq

/-- Where reading stopped: what was needed there, and the tokens not used. -/
structure Refusal where
  needed : Needed
  rest : List Token
deriving DecidableEq

namespace Expr

mutual

/-- The expression of the given level that the tokens begin with, and the tokens behind it. -/
def readLevel : Nat → Level → List Token → Except Refusal (Expr × List Token)
  | 0, _, tokens => .error ⟨.operand, tokens⟩
  | depth + 1, .assignment, tokens => do
    let (left, rest) ← readLevel depth .disjunction tokens
    match rest with
    | .symbol .equals :: rest => do
      let (right, rest) ← readLevel depth .disjunction rest
      return (.assign left right, rest)
    | rest => return (left, rest)
  | depth + 1, .power, tokens => do
    let (base, rest) ← readLevel depth .factorial tokens
    match rest with
    | .symbol .caret :: rest => do
      let (exponent, rest) ← readLevel depth .power rest
      return (.binary .pow base exponent, rest)
    | rest => return (base, rest)
  | depth + 1, .factorial, tokens => do
    let (operand, rest) ← readLevel depth .operand tokens
    match rest with
    | .symbol .bang :: rest => return (.unary .factorial operand, rest)
    | rest => return (operand, rest)
  | depth + 1, .operand, tokens => readOperand depth tokens
  | depth + 1, .negation, tokens => readLeading depth .negation tokens
  | depth + 1, .sign, tokens => readLeading depth .sign tokens
  | depth + 1, .root, tokens => readLeading depth .root tokens
  | depth + 1, level, tokens => do
    let (first, rest) ← readLevel depth level.tighter tokens
    readJoined depth level first rest

/-- The chain of operands that goes on from `left`. -/
def readJoined : Nat → Level → Expr → List Token → Except Refusal (Expr × List Token)
  | 0, _, _, tokens => .error ⟨.operand, tokens⟩
  | depth + 1, level, left, tokens =>
    match tokens with
    | .symbol s :: rest =>
      match level.joining? s with
      | some join => do
        let (right, rest) ← readLevel depth level.tighter rest
        readJoined depth level (join left right) rest
      | none => return (left, tokens)
    | _ => return (left, tokens)

/-- An operand with the operators of this level in front of it. -/
def readLeading : Nat → Level → List Token → Except Refusal (Expr × List Token)
  | 0, _, tokens => .error ⟨.operand, tokens⟩
  | depth + 1, level, tokens =>
    match tokens with
    | .symbol s :: rest =>
      match level.leading? s with
      | some build => do
        let (operand, rest) ← readLevel depth level rest
        return (build operand, rest)
      | none => readLevel depth level.tighter tokens
    | _ => readLevel depth level.tighter tokens

/-- A number, a name, a call or an expression in parentheses. -/
def readOperand : Nat → List Token → Except Refusal (Expr × List Token)
  | 0, tokens => .error ⟨.operand, tokens⟩
  | depth + 1, tokens =>
    match tokens with
    | .number value :: rest => return (.num value, rest)
    | .identifier name :: rest =>
      match Name.meaning name with
      | .constant value => return (.num value, rest)
      | .free => return (.var name, rest)
      | .function f =>
        match rest with
        | .symbol .leftParen :: rest => do
          let (arguments, rest) ← readArguments depth rest
          return (.call name f arguments, rest)
        | rest => throw ⟨.symbol .leftParen, rest⟩
    | .symbol .leftParen :: rest => do
      let (inner, rest) ← readLevel depth .assignment rest
      match rest with
      | .symbol .rightParen :: rest => return (inner, rest)
      | rest => throw ⟨.symbol .rightParen, rest⟩
    | _ => throw ⟨.operand, tokens⟩

/-- The arguments of a call, up to its closing parenthesis. -/
def readArguments : Nat → List Token → Except Refusal (List Expr × List Token)
  | 0, tokens => .error ⟨.operand, tokens⟩
  | depth + 1, tokens =>
    match tokens with
    | .symbol .rightParen :: rest => return ([], rest)
    | _ => readMore depth tokens

/-- At least one argument, up to the closing parenthesis. -/
def readMore : Nat → List Token → Except Refusal (List Expr × List Token)
  | 0, tokens => .error ⟨.operand, tokens⟩
  | depth + 1, tokens => do
    let (first, rest) ← readLevel depth .assignment tokens
    match rest with
    | .symbol .comma :: rest => do
      let (others, rest) ← readMore depth rest
      return (first :: others, rest)
    | .symbol .rightParen :: rest => return ([first], rest)
    | rest => throw ⟨.symbol .rightParen, rest⟩

end

/-- More than the steps of recursion between one token and the next. -/
def stepsPerToken : Nat := 32

/-- The longest expression that the tokens begin with, and the tokens behind it. -/
def readFirst (tokens : List Token) : Except Refusal (Expr × List Token) :=
  readLevel (stepsPerToken * (tokens.length + 1)) .assignment tokens

/-- The expression that the tokens are. -/
def ofTokens (tokens : List Token) : Except Refusal Expr := do
  let (e, rest) ← readFirst tokens
  match rest with
  | [] => return e
  | rest => throw ⟨.finish, rest⟩

end Expr

/-- The error of a refusal. -/
def Refusal.toSyntaxError (r : Refusal) : SyntaxError :=
  match r.needed with
  | .operand => .unexpectedToken r.rest.head?
  | .symbol s => .expectedToken (some (.symbol s)) r.rest.head?
  | .finish => .expectedToken none r.rest.head?

namespace Scan

/-- The error at the place where the tokens not used begin. -/
def errorAt (s : Scan) (r : Refusal) : SyntaxError :=
  match r.rest, s.failure with
  | [], some failure => failure
  | _, _ => r.toSyntaxError

/-- What comes at the place where the tokens not used begin: a token, or the end of the text. -/
def next (s : Scan) (rest : List Token) : Except SyntaxError (Option Token) :=
  match rest, s.failure with
  | [], some failure => .error failure
  | rest, _ => .ok rest.head?

end Scan

namespace Expr

/-- The expression that a text is. -/
def parse (text : String) : Except SyntaxError Expr :=
  let s := scan text.toList
  match ofTokens s.tokens with
  | .error r => .error (s.errorAt r)
  | .ok e => (s.next []).map fun _ => e

/-- The longest expression that a text begins with, and what comes behind it. -/
def parseFirst (text : String) : Except SyntaxError (Expr × Option Token) :=
  let s := scan text.toList
  match readFirst s.tokens with
  | .error r => .error (s.errorAt r)
  | .ok (e, rest) => (s.next rest).map fun t => (e, t)

end Expr

end Reckon
