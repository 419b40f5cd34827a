import Reckoner.Answer
import Reckoner.Settings

/-!
# Solving an Expression

From a text to an answer. Blank texts and texts past the length limit are
rejected before anything is read; then the text is scanned, parsed and evaluated,
and the first of these to fail decides. A solved expression gets one step more,
which restates the expression and its value.

`answer` is the same without failures, for callers who want something to show:
a rejection becomes an answer with an error. A fault stays a fault, because it
says nothing about the expression. `verdict` stops before evaluating. It has no
length limit, since it is meant for checking while somebody still types.

## Main definitions

* `parseText`: The tree of a text.
* `solve`: The value of a text with all steps.
* `answer`: The same as an answer.
* `verdict`: Whether a text is an expression, or what is wrong with it.

## Theorems

* `mapError_eq_ok_iff`: A result does not depend on how errors are told.
* `parseTokens_eq_malformed_iff`: Neither does an error about the tokens.
-/

namespace Reckoner

/-- The tokens of a text. -/
def tokenize (text : String) : Except Failure (List Token) :=
  (Token.scan text).mapError Failure.ofScan

/-- The tree of a list of tokens. -/
def parseTokens (settings : Settings) (tokens : List Token) : Except Failure Expr :=
  (Expr.ofTokens settings.maxDepth tokens).mapError Failure.ofParse

theorem mapError_eq_ok_iff {ε ε' α : Type} {f : ε → ε'} {x : Except ε α} {a : α} :
    x.mapError f = .ok a ↔ x = .ok a := by
  cases x with
  | error e => exact ⟨by rintro ⟨⟩, by rintro ⟨⟩⟩
  | ok b => exact ⟨by rintro ⟨⟩; rfl, by rintro ⟨⟩; rfl⟩

/-- Tokens are malformed for a caller if they are for the parser. -/
theorem parseTokens_eq_malformed_iff {settings : Settings} {tokens : List Token}
    {e : GrammarError} :
    parseTokens settings tokens = .error (.rejection (.malformed e)) ↔
      Expr.ofTokens settings.maxDepth tokens = .error (.malformed e) := by
  simp only [parseTokens]
  rcases Expr.ofTokens settings.maxDepth tokens with (e' | limit | symbol) | tree
  · exact ⟨by rintro ⟨⟩; rfl, by rintro ⟨⟩; rfl⟩
  · exact ⟨by rintro ⟨⟩, by rintro ⟨⟩⟩
  · exact ⟨by rintro ⟨⟩, by rintro ⟨⟩⟩
  · exact ⟨by rintro ⟨⟩, by rintro ⟨⟩⟩

/-- The tree of a text. -/
def parseText (settings : Settings) (text : String) : Except Failure Expr := do
  parseTokens settings (← tokenize text)

/-- The number of decimal places to use, if none is asked for. -/
def Settings.places (settings : Settings) (asked : Option Int) : Int :=
  asked.getD settings.decimals

/-- The value of a tree with its steps. -/
def evaluateTree [Numerics] (settings : Settings) (places : Option Int) (tree : Expr) :
    Except Failure Evaluation :=
  (tree.evaluate (settings.places places)).mapError Failure.ofEvaluation

/-- A binary operator, by its symbol, on two doubles. -/
def applyOperator (symbol : String) (left right : Double) : Except Failure Double :=
  match Operator.ofSymbol? symbol with
  | none => .error (.fault (.unknownOperator symbol))
  | some op => (op.calculate left right).mapError fun e => .rejection (.math e)

/-- A function, by its name, on a double. -/
def applyFunction [Numerics] (name : String) (argument : Double) : Except Failure Double :=
  match Unary.ofName? name with
  | none => .error (.fault (.unknownFunction name))
  | some f =>
    match f.calculate argument with
    | .ok value => .ok value
    | .error (.math e) => .error (.rejection (.math e))
    | .error (.noDecimal shown) => .error (.fault (.noDecimal shown))

/-- The step that closes the solution of a text. -/
def finalStep (text : String) (value : Double) : Step := Step.final (Text.strip text) value

/-- An evaluation with the closing step. -/
def Evaluation.close (e : Evaluation) (text : String) : Evaluation :=
  ⟨e.value, e.steps ++ [finalStep text e.value]⟩

/-- Reject what need not be read: blank texts and texts that are too long. -/
def precheck (settings : Settings) (text : String) : Except Failure Unit :=
  if Text.isBlankText text then .error (.rejection .blank)
  else if settings.maxLength < (text.length : Int) then
    .error (.rejection (.tooLong settings.maxLength))
  else .ok ()

/-- The value of a text with all steps. -/
def solve [Numerics] (settings : Settings) (places : Option Int) (text : String) :
    Except Failure Evaluation := do
  precheck settings text
  let tree ← parseText settings text
  let result ← evaluateTree settings places tree
  return result.close text

/-- A solved expression as an answer. -/
def Answer.solved (text : String) (e : Evaluation) : Answer :=
  ⟨true, text, some e.value, e.steps, none, none⟩

/-- A rejected expression as an answer. -/
def Answer.rejected (text : String) (r : Report) : Answer :=
  ⟨false, text, none, [], some r.describe, some r.code⟩

/-- The answer that an outcome of solving amounts to. -/
def Answer.ofOutcome (text : String) (outcome : Except Failure Evaluation) : Except Fault Answer :=
  match outcome with
  | .ok e => .ok (.solved text e)
  | .error (.rejection r) => .ok (.rejected text r.report)
  | .error (.fault f) => .error f

/-- The answer to a text. -/
def answer [Numerics] (settings : Settings) (places : Option Int) (text : String) :
    Except Fault Answer :=
  Answer.ofOutcome text (solve settings places text)

/-- The verdict that an outcome of parsing amounts to: nothing, or what is wrong. -/
def verdictOf (outcome : Except Failure Expr) : Except Fault (Option String) :=
  match outcome with
  | .ok _ => .ok none
  | .error (.rejection r) => .ok (some r.report.describe)
  | .error (.fault f) => .error f

/-- What is wrong with a text, if it is no expression. -/
def verdict (settings : Settings) (text : String) : Except Fault (Option String) :=
  if Text.isBlankText text then .ok (some Rejection.blank.report.describe)
  else verdictOf (parseText settings text)

end Reckoner
