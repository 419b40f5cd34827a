import Reckoner.Operation.Operator
import Reckoner.Elementary.SquareRoot
import Reckoner.Elementary.Logarithm
import Reckoner.Elementary.Trigonometry

/-!
# Functions of One Argument

Negation and the six named functions. A named function reads its argument as the
decimal the user sees: 0.1 is one tenth, not the double nearest to it. Its value
there is computed with 60 bits and rounded to a double, and trigonometric
arguments are degrees, so a sine of 30 is exactly one half.

The value with 60 bits comes from a numerical library, which is not a part of the
calculator. `Numerics` is what is asked of such a library, and everything that is
computed here is computed with the one at hand. `Numerics.reference` is the one
that the program uses.

Functions arrive by name, like operators by symbol. Negation has a name too, but
it is not one that can be written in an expression.

## Main definitions

* `Unary`: Negation and the named functions.
* `Unary.name`, `Unary.ofName?`: The name and the way back.
* `Unary.named`: The functions that expressions may call.
* `Numerics`: A library that knows the values of the named functions.
* `Numerics.reference`: The library that the program uses.
* `Unary.calculate`: The function on a double.

## Theorems

* `ofName?_name`: Every function is found under its name.
-/

namespace Reckoner

/-- A function of one argument. -/
inductive Unary
  | negate
  | squareRoot
  | sine
  | cosine
  | tangent
  | decimalLog
  | naturalLog
deriving DecidableEq, Repr

/-- Why a function cannot be applied to a double. An argument without a decimal
    is an infinity or the indefinite value. -/
inductive UnaryFailure
  | math (error : MathError)
  | noDecimal (shown : String)
deriving DecidableEq

namespace Unary

/-- The name of a function. -/
def name : Unary → String
  | .negate => "neg"
  | .squareRoot => "sqrt"
  | .sine => "sin"
  | .cosine => "cos"
  | .tangent => "tan"
  | .decimalLog => "log"
  | .naturalLog => "ln"

/-- The functions that expressions may call. -/
def named : List Unary :=
  [.squareRoot, .sine, .cosine, .tangent, .decimalLog, .naturalLog]

/-- All functions. -/
def all : List Unary := .negate :: named

/-- The function with the given name. -/
def ofName? (s : String) : Option Unary := all.find? fun f => f.name == s

/-- Whether the argument is an angle. -/
def isTrigonometric : Unary → Bool
  | .sine => true
  | .cosine => true
  | .tangent => true
  | _ => false

/-- The application as it is shown, with a degree sign after an angle. -/
def calculation (f : Unary) (argument : Double) : String :=
  if f.isTrigonometric then s!"{f.name}({argument.compact}°)"
  else s!"{f.name}({argument.compact})"

/-- The number of bits that a value has before it becomes a double. -/
def workingBits : Nat := 60

end Unary

/-- A numerical library: the values of the named functions at rationals, where they have
    one, computed with 60 bits. -/
class Numerics where
  value? : Unary → Rat → Option Rat

/-- The library that the program uses. A tangent has no value at its poles. -/
instance Numerics.reference : Numerics where
  value? f argument :=
    match f with
    | .negate => some (-argument)
    | .squareRoot => some (Elementary.root Unary.workingBits argument)
    | .sine => some (Elementary.sineDegrees Unary.workingBits argument)
    | .cosine => some (Elementary.cosineDegrees Unary.workingBits argument)
    | .tangent => Elementary.tangentDegrees? Unary.workingBits argument
    | .decimalLog => some (Elementary.decimalLog Unary.workingBits argument)
    | .naturalLog => some (Elementary.naturalLog Unary.workingBits argument)

namespace Unary

/-- The value of a named function inside its domain, rounded to a double. -/
def calculateSeen [Numerics] (f : Unary) (argument : Double) : Except UnaryFailure Double :=
  match argument.seen? with
  | none => .error (.noDecimal argument.text)
  | some q =>
    match Numerics.value? f q with
    | none => .error (.math (.undefined (f.calculation argument)))
    | some value => .ok (Double.ofRat value)

/-- The function on a double. Only the trigonometric functions check what comes
    out of them. -/
def calculate [Numerics] (f : Unary) (argument : Double) : Except UnaryFailure Double :=
  let shown := f.calculation argument
  match f with
  | .negate => .ok (if argument.isZero then Double.zero else -argument)
  | .squareRoot =>
    if argument.isNegative then .error (.math (.negativeRoot shown))
    else f.calculateSeen argument
  | .decimalLog | .naturalLog =>
    if argument.isNegative || argument.isZero then .error (.math (.logOfNonPositive shown))
    else f.calculateSeen argument
  | .sine | .cosine | .tangent =>
    match f.calculateSeen argument with
    | .error e => .error e
    | .ok value => (checked shown value).mapError .math

theorem ofName?_name (f : Unary) : ofName? f.name = some f := by
  cases f <;> decide

end Unary

end Reckoner
