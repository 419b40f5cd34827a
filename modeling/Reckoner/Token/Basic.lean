import Reckoner.Number.Double

/-!
# Tokens

What an expression is made of once its characters have been read. A token has a
kind, the characters it was written with, a value if it denotes a number, and
the position of its first character. Numbers and constants are kept apart: a
constant may follow an operand directly, as in a multiplication without a sign,
and a number may not.

A minus sign has two kinds. Which one it is depends only on what stands before
it, and `TokenKind.startsOperand` is the one place that says so.

## Main definitions

* `TokenKind`: The seven kinds of token.
* `Token`: A token with its text, value and position.
* `TokenKind.startsOperand`: Whether a minus after such a token negates.
* `TokenKind.multiplies`: Whether such a token multiplies an operand before it.
-/

namespace Reckoner

/-- The kinds of token. -/
inductive TokenKind
  | number
  | operator
  | negate
  | function
  | openParen
  | closeParen
  | constant
deriving DecidableEq, Repr

/-- Whether an operand must follow a token of this kind, so that a minus sign
    after it negates that operand. -/
def TokenKind.startsOperand : TokenKind → Bool
  | .operator => true
  | .negate => true
  | .openParen => true
  | .function => true
  | _ => false

/-- Whether a token of this kind, written directly after an operand, multiplies
    it. -/
def TokenKind.multiplies : TokenKind → Bool
  | .constant => true
  | .openParen => true
  | .function => true
  | _ => false

/-- One token of an expression. -/
structure Token where
  kind : TokenKind
  text : String
  value : Option Double
  position : Int
deriving DecidableEq

/-- The position after the last character of a token. -/
def Token.stop (t : Token) : Int := t.position + t.text.length

end Reckoner
