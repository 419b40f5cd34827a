import Reckoner.Number.Numeral
import Reckoner.Number.Power

/-!
# Binary Operators

The five binary operators: their symbols, how tightly they bind, and what they
do to two doubles. Operators reach the calculator as symbols, in hand-made trees
as well as in text, so `ofSymbol?` is where an unknown one is noticed.

An operator fails exactly where its result is not a finite double: a division
by zero, a power that does not exist, an overflow. What succeeds is never a
negative zero, because every result passes through `checked`.

## Main definitions

* `Operator`: The five operators.
* `Operator.symbol`, `Operator.ofSymbol?`: The symbol and the way back.
* `Operator.precedence`, `Operator.rightLeast`: How operators bind.
* `MathError`: Why a calculation has no value.
* `checked`: The gate for results that may be out of range.
* `Operator.calculate`: The operation on two doubles.

## Theorems

* `ofSymbol?_symbol`: Every operator is found under its symbol.
* `symbol_of_ofSymbol?`: An operator is found under no other.
-/

namespace Reckoner

/-- A binary operator. -/
inductive Operator
  | add
  | subtract
  | multiply
  | divide
  | power
deriving DecidableEq, Repr

/-- Why a calculation has no value. Each names the calculation as it is shown. -/
inductive MathError
  | divisionByZero (calculation : String)
  | zeroToNegative (calculation : String)
  | notReal (calculation : String)
  | tooLarge (calculation : String)
  | negativeRoot (calculation : String)
  | logOfNonPositive (calculation : String)
  | undefined (calculation : String)
deriving DecidableEq, Repr

/-- The wording of a mathematical error. -/
def MathError.message : MathError → String
  | .divisionByZero calculation => s!"Division by zero: {calculation}"
  | .zeroToNegative calculation =>
    s!"Zero cannot be raised to a negative power: {calculation}"
  | .notReal calculation => s!"{calculation} is not a real number"
  | .tooLarge calculation => s!"Result of {calculation} is too large"
  | .negativeRoot calculation =>
    s!"Cannot take the square root of a negative number: {calculation}"
  | .logOfNonPositive calculation =>
    s!"Logarithm is undefined for non-positive values: {calculation}"
  | .undefined calculation => s!"{calculation} is undefined"

/-- The gate for results that may be out of range: what passes is finite, and zero has
    no sign. -/
def checked (calculation : String) (result : Double) : Except MathError Double :=
  if result.isFinite then .ok result.unsignedZero else .error (.tooLarge calculation)

namespace Operator

/-- All operators. -/
def all : List Operator := [.add, .subtract, .multiply, .divide, .power]

/-- The symbol that stands for an operator. -/
def symbol : Operator → String
  | .add => "+"
  | .subtract => "-"
  | .multiply => "*"
  | .divide => "/"
  | .power => "^"

/-- The operator with the given symbol. -/
def ofSymbol? (s : String) : Option Operator :=
  if s = "+" then some .add
  else if s = "-" then some .subtract
  else if s = "*" then some .multiply
  else if s = "/" then some .divide
  else if s = "^" then some .power
  else none

/-- How tightly an operator binds; a higher number binds tighter. -/
def precedence : Operator → Nat
  | .add => 1
  | .subtract => 1
  | .multiply => 2
  | .divide => 2
  | .power => 3

/-- The least precedence allowed inside the right operand. Powers group to the
    right, so their own precedence is allowed there; the others group to the
    left. -/
def rightLeast (op : Operator) : Nat :=
  match op with
  | .power => op.precedence
  | _ => op.precedence + 1

/-- The name of the operation in a step. -/
def title : Operator → String
  | .add => "Addition"
  | .subtract => "Subtraction"
  | .multiply => "Multiplication"
  | .divide => "Division"
  | .power => "Exponent calculation"

/-- The operator in words. -/
def phrase : Operator → String
  | .add => "plus"
  | .subtract => "minus"
  | .multiply => "multiplied by"
  | .divide => "divided by"
  | .power => "raised to the power of"

/-- The operation as it is shown. -/
def calculation (op : Operator) (left right : Double) : String :=
  s!"{left.compact} {op.symbol} {right.compact}"

/-- The operation on two doubles. -/
def calculate (op : Operator) (left right : Double) : Except MathError Double :=
  let shown := op.calculation left right
  match op with
  | .add => checked shown (left + right)
  | .subtract => checked shown (left - right)
  | .multiply => checked shown (left * right)
  | .divide =>
    if right.isZero then .error (.divisionByZero shown) else checked shown (left / right)
  | .power =>
    match left.power right with
    | .ok result => checked shown result
    | .error .zeroToNegative => .error (.zeroToNegative shown)
    | .error .overflow => .error (.tooLarge shown)
    | .error .notReal => .error (.notReal shown)

theorem ofSymbol?_symbol (op : Operator) : ofSymbol? op.symbol = some op := by
  cases op <;> decide

theorem symbol_of_ofSymbol? {s : String} {op : Operator} (h : ofSymbol? s = some op) :
    s = op.symbol := by
  simp only [ofSymbol?] at h
  repeat' split at h
  all_goals first
    | (cases h; assumption)
    | cases h

end Operator

end Reckoner
