import Reckoner.Failure
import Reckoner.Text.Json

/-!
# Answers

What the calculator says about an expression, as plain data. A good answer has a
value and steps, a bad one an error and its code. Nothing enforces that split
here: answers can be made by hand with any fields, and each is shown as it is.

An answer has three forms. One line sums it up, a list of steps is for people,
and an object is for programs. The object leaves out what is missing, and a
missing field can be told from an empty one. The form for people is the only one
that can fail: it cannot do without the value of a good answer.

## Main definitions

* `Answer`: What is said about an expression.
* `Answer.summary`: The answer in one line.
* `Answer.toJson`: The answer as an object.
* `Answer.human`: The answer for people.
* `Format`: The two forms in which answers are printed.
* `Answer.printed`: The printed answer.

## Theorems

* `printed_json`: The form for programs never fails.
-/

namespace Reckoner

/-- What is said about an expression. -/
structure Answer where
  ok : Bool
  expression : String
  value : Option Double
  steps : List Step
  error : Option String
  code : Option String
deriving DecidableEq

/-- The two forms in which answers are printed. -/
inductive Format
  | human
  | json
deriving DecidableEq, Repr

/-- The word for nothing. -/
def noneText : String := "None"

/-- A step as an object. -/
def Step.toJson (s : Step) : Json :=
  .object [("description", .text s.description), ("calculation", .text s.calculation),
    ("explanation", .text s.explanation)]

namespace Answer

/-- The answer in one line. A bad answer shows its error, a good one its value
    and how many steps there are. -/
def summary (a : Answer) : String :=
  if a.ok then
    s!"SolveResult(ok=True, value={(a.value.map Double.text).getD noneText}, " ++
      s!"steps={a.steps.length})"
  else
    s!"SolveResult(ok=False, error={(a.error.map Text.quoted).getD noneText}, " ++
      s!"error_code={(a.code.map Text.quoted).getD noneText})"

/-- The answer as an object, without the fields that are missing, and with the
    given document in place of the expression. -/
def toJsonFor (a : Answer) (expression : Json) : Json :=
  .object <|
    [("ok", .bool a.ok), ("expression", expression)] ++
      (a.value.map fun v => ("value", .number v)).toList ++
      (if a.steps.isEmpty then [] else [("steps", .array (a.steps.map Step.toJson))]) ++
      (a.error.map fun e => ("error", .text e)).toList ++
      (a.code.map fun c => ("error_code", .text c)).toList

/-- The answer as an object. -/
def toJson (a : Answer) : Json := a.toJsonFor (.text a.expression)

/-- The lines of one numbered step. -/
def stepLines (index : Nat) (s : Step) : String :=
  s!"  Step {index}: {s.description}\n    {s.calculation}\n    ({s.explanation})\n"

/-- The lines of steps numbered from `index` on. -/
def numbered (index : Nat) : List Step → String
  | [] => ""
  | s :: rest => stepLines index s ++ numbered (index + 1) rest

/-- The answer for people. -/
def human (a : Answer) : Except Fault String :=
  if a.ok then
    match a.value with
    | none => .error .nothingToPrint
    | some value =>
      .ok ("Step-by-step solution:\n" ++ numbered 1 a.steps ++ s!"Result: {value.compact}\n")
  else .ok s!"Error: {a.error.getD noneText}\n"

/-- The printed answer, with the given document in place of the expression. -/
def printedFor (a : Answer) (expression : Json) (format : Format) : Except Fault String :=
  match format with
  | .human => a.human
  | .json => .ok ((a.toJsonFor expression).pretty ++ "\n")

/-- The printed answer. -/
def printed (a : Answer) (format : Format) : Except Fault String :=
  a.printedFor (.text a.expression) format

theorem printed_json (a : Answer) : a.printed .json = .ok (a.toJson.pretty ++ "\n") := rfl

end Answer

end Reckoner
