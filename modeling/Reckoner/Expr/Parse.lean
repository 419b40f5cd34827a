import Reckoner.Expr.Basic
import Reckoner.Operation.Unary
import Reckoner.Text.Quoted
import Reckoner.Token.Basic

/-!
# Parsing

From tokens to a tree. Function application and negation bind tightest, then
powers, which group to the right, then products and quotients, then sums and
differences. An operand directly followed by a constant, a parenthesis or a
function is multiplied by it.

The parser climbs precedences. `expression` reads an operand and hands it to
`operands`, which absorbs operators for as long as they bind at least as tightly
as its caller asked; each right operand is an `expression` with a higher bar.

Every piece comes back with a proof that it used up at least one token, and
that proof is what the recursion rests on. The depth limit plays no part in
termination. It is an ordinary parameter, counted along right operands,
parentheses, arguments and negations, and it may even be negative.

## Main definitions

* `GrammarError`: What is wrong with tokens that form no expression.
* `ParseError`: Why a list of tokens has no tree.
* `Parse.Piece`: A tree and the tokens after it, fewer than before.
* `Parse.joint?`: The operator between an operand and what follows, written or
  not.
* `Parse.expression`, `Parse.operands`, `Parse.unary`, `Parse.primary`: The
  parser.
* `Expr.ofTokens`: The tree of a list of tokens.
-/

namespace Reckoner

/-- What is wrong with tokens that form no expression. -/
inductive GrammarError
  | empty
  | missingOperandAtEnd (position : Int)
  | missingParenthesis (function : String) (position : Int)
  | nothingBeforeClosing (position : Int)
  | missingOperand (operator : String) (position : Int)
  | unmatchedOpening (position : Int)
  | unmatchedClosing (position : Int)
  | unexpected (text : String) (position : Int)
deriving DecidableEq, Repr

namespace GrammarError

/-- The position that an error points at. -/
def position : GrammarError → Int
  | .empty => 0
  | .missingOperandAtEnd p => p
  | .missingParenthesis _ p => p
  | .nothingBeforeClosing p => p
  | .missingOperand _ p => p
  | .unmatchedOpening p => p
  | .unmatchedClosing p => p
  | .unexpected _ p => p

/-- The wording of a grammatical error. -/
def message : GrammarError → String
  | .empty => "Empty expression"
  | .missingOperandAtEnd p => s!"Missing operand at end of expression (position {p})"
  | .missingParenthesis function p =>
    s!"Function '{function}' must be followed by '(' (position {p})"
  | .nothingBeforeClosing p => s!"Missing operand before ')' at position {p}"
  | .missingOperand operator p => s!"Operator '{operator}' is missing an operand at position {p}"
  | .unmatchedOpening p => s!"Unmatched '(' at position {p}"
  | .unmatchedClosing p => s!"Unmatched ')' at position {p}"
  | .unexpected text p => s!"Unexpected '{text}' at position {p}"

end GrammarError

/-- Why a list of tokens has no tree: it is no expression, it is nested too
    deeply, or it holds an operator that does not exist. -/
inductive ParseError
  | malformed (error : GrammarError)
  | tooDeep (limit : Int)
  | unknownOperator (symbol : String)
deriving DecidableEq, Repr

namespace Parse

/-- A tree read from the front of a list of tokens, and the tokens after it. -/
structure Piece (tokens : List Token) where
  tree : Expr
  rest : List Token
  shorter : rest.length < tokens.length

/-- A tree that takes in an operand already read, and the tokens after it. -/
structure Extension (tokens : List Token) where
  tree : Expr
  rest : List Token
  noLonger : rest.length ≤ tokens.length

/-- What follows a closing parenthesis. -/
structure Closed (tokens : List Token) where
  rest : List Token
  shorter : rest.length < tokens.length

/-- The operator that joins an operand to what follows it, and the tokens of the
    right operand. A multiplication without a sign uses up no token. -/
def joint? : List Token → Option (String × List Token)
  | [] => none
  | t :: rest =>
    if t.kind = .operator then some (t.text, rest)
    else if t.kind.multiplies then some ("*", t :: rest)
    else none

theorem joint?_length {tokens : List Token} {symbol : String} {rest : List Token}
    (h : joint? tokens = some (symbol, rest)) : rest.length ≤ tokens.length := by
  cases tokens with
  | nil => simp [joint?] at h
  | cons t ts =>
      simp only [joint?] at h
      split at h
      · cases h
        simp
      · split at h
        · cases h
          simp
        · cases h

/-- The tokens after the parenthesis that closes `opening`. -/
def closing (opening : Token) (tokens : List Token) : Except ParseError (Closed tokens) :=
  match tokens with
  | [] => .error (.malformed (.unmatchedOpening opening.position))
  | t :: rest =>
    if t.kind = .closeParen then .ok ⟨rest, by simp⟩
    else .error (.malformed (.unmatchedOpening opening.position))

mutual

/-- An expression whose operators outside parentheses bind at least as tightly
    as `least`. -/
def expression (limit stop : Int) (least depth : Nat) (tokens : List Token) :
    Except ParseError (Piece tokens) :=
  if limit < (depth : Int) then .error (.tooDeep limit)
  else
    match unary limit stop depth tokens with
    | .error e => .error e
    | .ok ⟨left, rest, hleft⟩ =>
      match operands limit stop least depth left rest with
      | .error e => .error e
      | .ok ⟨tree, after, hafter⟩ => .ok ⟨tree, after, Nat.lt_of_le_of_lt hafter hleft⟩
termination_by 4 * tokens.length + 2

/-- The operators after an operand that bind at least as tightly as `least`,
    each with its right operand. -/
def operands (limit stop : Int) (least depth : Nat) (left : Expr) (tokens : List Token) :
    Except ParseError (Extension tokens) :=
  match hjoint : joint? tokens with
  | none => .ok ⟨left, tokens, Nat.le_refl _⟩
  | some (symbol, operand) =>
    have hoperand : operand.length ≤ tokens.length := joint?_length hjoint
    match Operator.ofSymbol? symbol with
    | none => .error (.unknownOperator symbol)
    | some op =>
      if op.precedence < least then .ok ⟨left, tokens, Nat.le_refl _⟩
      else
        match expression limit stop op.rightLeast (depth + 1) operand with
        | .error e => .error e
        | .ok ⟨right, rest, hright⟩ =>
          match operands limit stop least depth (.binary symbol left right false) rest with
          | .error e => .error e
          | .ok ⟨tree, after, hafter⟩ => .ok ⟨tree, after, by omega⟩
termination_by 4 * tokens.length + 3

/-- A primary expression with any number of negations before it. -/
def unary (limit stop : Int) (depth : Nat) (tokens : List Token) :
    Except ParseError (Piece tokens) :=
  match tokens with
  | [] => primary limit stop depth []
  | t :: rest =>
    if t.kind = .negate then
      if limit < (depth + 1 : Nat) then .error (.tooDeep limit)
      else
        match unary limit stop (depth + 1) rest with
        | .error e => .error e
        | .ok ⟨argument, after, hafter⟩ =>
          .ok ⟨.apply Unary.negate.name argument, after, Nat.lt_succ_of_lt hafter⟩
    else primary limit stop depth (t :: rest)
termination_by 4 * tokens.length + 1

/-- A number, a constant, an expression in parentheses or a function with its
    argument. -/
def primary (limit stop : Int) (depth : Nat) (tokens : List Token) :
    Except ParseError (Piece tokens) :=
  match tokens with
  | [] => .error (.malformed (.missingOperandAtEnd stop))
  | t :: rest =>
    match t.kind with
    | .number | .constant => .ok ⟨.literal t.value, rest, by simp⟩
    | .openParen =>
      match expression limit stop 1 (depth + 1) rest with
      | .error e => .error e
      | .ok ⟨inner, after, hinner⟩ =>
        match closing t after with
        | .error e => .error e
        | .ok ⟨last, hlast⟩ =>
          .ok ⟨inner.grouped, last, Nat.lt_succ_of_lt (Nat.lt_trans hlast hinner)⟩
    | .function =>
      match rest with
      | [] => .error (.malformed (.missingParenthesis t.text stop))
      | opening :: more =>
        if opening.kind = .openParen then
          match expression limit stop 1 (depth + 1) more with
          | .error e => .error e
          | .ok ⟨argument, after, hargument⟩ =>
            match closing opening after with
            | .error e => .error e
            | .ok ⟨last, hlast⟩ =>
              .ok ⟨.apply t.text argument, last,
                Nat.lt_succ_of_lt (Nat.lt_succ_of_lt (Nat.lt_trans hlast hargument))⟩
        else .error (.malformed (.missingParenthesis t.text opening.position))
    | .closeParen => .error (.malformed (.nothingBeforeClosing t.position))
    | .operator | .negate => .error (.malformed (.missingOperand t.text t.position))
termination_by 4 * tokens.length

end

end Parse

/-- The tree of a list of tokens, nested no deeper than `limit`. -/
def Expr.ofTokens (limit : Int) (tokens : List Token) : Except ParseError Expr :=
  match tokens.getLast? with
  | none => .error (.malformed .empty)
  | some last =>
    match Parse.expression limit last.stop 1 0 tokens with
    | .error e => .error e
    | .ok ⟨tree, [], _⟩ => .ok tree
    | .ok ⟨_, t :: _, _⟩ =>
      if t.kind = .closeParen then .error (.malformed (.unmatchedClosing t.position))
      else .error (.malformed (.unexpected t.text t.position))

end Reckoner
