import Reckoner.Number.Machine
import Reckoner.Operation.Unary

/-!
# Steps

One operation of a calculation, put into words: what kind of operation it is,
the calculation itself with its result, and an explanation. Operands are shown
compactly. The result of a binary operation or a negation is too, while the
result of a named function has a fixed number of decimal places.

That number of places is the only thing here that can be wrong. It is an integer
that somebody chose, so it can be negative, or larger than any numeral. Just below
that limit there is another one. The formatter counts the digits of a numeral, the
whole part included, and where they are more than it can count it loses them all
and writes zeros.

## Main definitions

* `Step`: The record of one operation.
* `PlacesFault`: Why a number of decimal places cannot be used.
* `Double.overlong`, `Double.counted`: The numbers with more digits than the formatter can
  count, and how they are written.
* `fixedNumeral`: A numeral with a chosen number of decimal places.
* `Step.ofOperator`, `Step.ofUnary`: The steps of operators and functions.
* `Step.final`: The step that restates the expression and its value.
-/

namespace Reckoner

/-- The record of one operation. -/
structure Step where
  description : String
  calculation : String
  explanation : String
deriving DecidableEq, Repr

/-- Why a number of decimal places cannot be used. -/
inductive PlacesFault
  | negative
  | tooMany
  | unreadable
deriving DecidableEq, Repr

/-- The wording of a fault in the number of decimal places. -/
def PlacesFault.message : PlacesFault → String
  | .negative => "Format specifier missing precision"
  | .tooMany => "precision too big"
  | .unreadable => "Too many decimal digits in format string"

/-- Whether a number with this many decimal places has more digits than can be
    counted. An integer of at most fifteen digits is written without counting. -/
def Double.overlong (x : Double) (places : Nat) : Bool :=
  match x.toRat? with
  | some q =>
    decide (maxHalfWord < places + Numeral.wholeDigits q.abs) &&
      !(decide (q.den = 1) && decide (q.abs < (10 : Rat) ^ (15 : Nat)))
  | none => false

/-- The numeral with decimal places as far as its digits can be counted, and with zeros
    for all of them where they cannot. A zero has no sign here, whatever the double says. -/
def Double.counted (x : Double) (places : Nat) : String :=
  if x.overlong places then Double.withSign x.isNegative (Numeral.scaled places 0)
  else x.unsignedZero.fixed places

/-- The numeral of a double with a chosen number of decimal places. -/
def fixedNumeral (x : Double) (places : Int) : Except PlacesFault String :=
  if places < 0 then .error .negative
  else if maxWord < places then .error .unreadable
  else if maxHalfWord < places then .error .tooMany
  else .ok (x.counted places.toNat)

namespace Step

/-- What is added to an explanation when the operation stood in parentheses. -/
def parenthesesNote : String := "parentheses have highest priority in order of operations"

/-- The step of a binary operation. -/
def ofOperator (op : Operator) (left right value : Double) (grouped : Bool) : Step :=
  let shown := op.calculation left right
  let explanation := s!"{left.compact} {op.phrase} {right.compact}"
  ⟨s!"{op.title}: {shown}", s!"{shown} = {value.compact}",
    if grouped then s!"{explanation}; {parenthesesNote}" else explanation⟩

/-- The description and the explanation of a function's step. -/
def wording (f : Unary) (argument : Double) : String × String :=
  let a := argument.compact
  match f with
  | .negate => ("Negation", s!"The opposite of {a}")
  | .squareRoot => ("Square root calculation", s!"Square root of {a}")
  | .sine | .cosine | .tangent => (s!"{f.name} calculation", s!"{f.name} of {a} degrees")
  | .decimalLog => ("Logarithm calculation", s!"Base-10 logarithm of {a}")
  | .naturalLog => ("Natural log calculation", s!"Natural logarithm (base e) of {a}")

/-- The step of a function. -/
def ofUnary (places : Int) (f : Unary) (argument value : Double) : Except PlacesFault Step :=
  let shown := f.calculation argument
  let (title, explanation) := wording f argument
  let step (result : String) : Step := ⟨s!"{title}: {shown}", s!"{shown} = {result}", explanation⟩
  match f with
  | .negate => .ok (step value.compact)
  | _ => (fixedNumeral value places).map step

/-- The step that closes a calculation, with the expression as it was given. -/
def final (shownExpression : String) (value : Double) : Step :=
  ⟨"Final Result", s!"{shownExpression} = {value.compact}", "Calculation completed successfully"⟩

end Step

end Reckoner
