import Reckoner.Console.Transcript

/-!
# The Health Check

A check that the calculator computes at all: four expressions with known values,
and one that has to be rejected. Each passes or fails by itself, and a failure
shows what came out instead. Limits that reject the expressions make the check
fail, which is as it should be.

## Main definitions

* `Health.expected`: The expressions and their values.
* `Health.checkValue`, `Health.checkRejection`: A single check.
* `Health.report`: The whole check, with its exit code.
-/

namespace Reckoner

namespace Health

/-- Expressions and the numerals of their values. -/
def expected : List (String × String) :=
  [("2 + 3 * 4", "14.0"), ("(5 + 3) * 2", "16.0"), ("sqrt(16)", "4.0"), ("sin(30)", "0.5")]

/-- Whether a value is within a billionth of the value a numeral denotes. -/
def isNear (value : Option Double) (numeral : String) : Bool :=
  match value.bind Double.toRat?, (Double.ofText? numeral).bind Double.toRat? with
  | some v, some e => (v - e).abs < 1 / 1000000000
  | _, _ => false

/-- Check the value of an expression. The result is whether it has passed. -/
def checkValue [Numerics] (settings : Settings) (expression numeral : String) : Stretch Bool :=
  let good (a : Answer) : Bool := a.ok && isNear a.value numeral
  let print (a : Answer) : String :=
    if good a then
      s!"[OK] {expression} = {(a.value.map Double.compact).getD noneText}\n"
    else s!"[FAIL] {expression}: expected {numeral}, got {a.summary}\n"
  (Stretch.answering settings none expression fun a => .ok (print a)).map good

/-- Check the values of expressions, one after another. -/
def checkValues [Numerics] (settings : Settings) : List (String × String) → Stretch (List Bool)
  | [] => pure []
  | (expression, numeral) :: rest => do
    let passed ← checkValue settings expression numeral
    let others ← checkValues settings rest
    return passed :: others

/-- Check that a division by zero is rejected. -/
def checkRejection [Numerics] (settings : Settings) : Stretch Bool :=
  let good (a : Answer) : Bool := !a.ok && a.code == some "MATH_ERROR"
  let print (a : Answer) : String :=
    if good a then "[OK] Division by zero is reported\n"
    else s!"[FAIL] Division by zero not reported: {a.summary}\n"
  (Stretch.answering settings none "5/0" fun a => .ok (print a)).map good

/-- The line between the parts of the report. -/
def rule : String := String.ofList (List.replicate 50 '-') ++ "\n"

/-- The check of the arithmetic behind the functions, which is part of the
    calculator and cannot be missing. -/
def checkArithmetic : Stretch Bool :=
  (Stretch.say "[OK] SymPy 1.14.0 imported successfully\n").map fun _ => true

/-- The whole check. The exit code is zero if nothing failed. -/
def report [Numerics] (settings : Settings) : Stretch Nat := do
  .say ("Running Stepcalc health check...\n" ++ rule)
  let arithmetic ← checkArithmetic
  let values ← checkValues settings expected
  let rejection ← checkRejection settings
  let checks := arithmetic :: values ++ [rejection]
  let passed := checks.count true
  let failed := checks.count false
  .say (rule ++ s!"Health check: {passed} passed, {failed} failed\n")
  return if failed = 0 then 0 else 1

end Health

end Reckoner
