import Reckoner.Evaluation
import Reckoner.Expr.Parse
import Reckoner.Log.Disk
import Reckoner.Log.Level
import Reckoner.Text.Integer
import Reckoner.Text.Quoted
import Reckoner.Token.Scan

/-!
# Failures

There are two ways for an answer not to come about. A *rejection* is about the
expression: it is blank, too long, not readable, or not computable. It is an
answer too, with a kind, a code and a wording meant for the person who typed the
expression. A *fault* is about the caller: a tree with a made-up operator, a
setting that is no number, a negative number of decimal places, a log file that
does not open, a good answer that has no value to print.

A rejection is told as a `Report`, which is all that anyone outside sees of it.
Reports can also be made directly, with a code of one's own.

## Main definitions

* `Kind`: The kinds of report, with their headlines and codes.
* `Report`: What is told about a rejected expression.
* `Rejection`: Why an expression is rejected.
* `Fault`: What a caller did wrong.
* `Failure`: A rejection or a fault.
-/

namespace Reckoner

/-- The kinds of report. -/
inductive Kind
  | calculator
  | validation
  | emptyInput
  | lexical
  | grammatical
  | mathematical
deriving DecidableEq, Repr

namespace Kind

/-- The code of a report of this kind that has none of its own. -/
def defaultCode : Kind → String
  | .calculator => "CALCULATOR_ERROR"
  | .validation => "VALIDATION_ERROR"
  | .emptyInput => "EMPTY_INPUT"
  | .lexical => "LEX_ERROR"
  | .grammatical => "SYNTAX_ERROR"
  | .mathematical => "MATH_ERROR"

/-- The headline under which a report of this kind is shown. -/
def headline? : Kind → Option String
  | .calculator => none
  | .validation => some "Invalid input"
  | .emptyInput => some "Please enter a mathematical expression"
  | .lexical => some "Unrecognized input"
  | .grammatical => some "Invalid expression format"
  | .mathematical => some "Math error"

/-- Whether the report is about the input as a whole. Blank input is. -/
def isValidation : Kind → Bool
  | .validation => true
  | .emptyInput => true
  | _ => false

end Kind

/-- What is told about a rejected expression. -/
structure Report where
  kind : Kind
  message : String
  code : String
  position : Option Int
deriving DecidableEq, Repr

namespace Report

/-- A report without a position. A missing or empty code is replaced by that of
    the kind. -/
def make (kind : Kind) (message : String) (code : Option String) : Report :=
  let chosen :=
    match code with
    | some c => if c.isEmpty then kind.defaultCode else c
    | none => kind.defaultCode
  ⟨kind, message, chosen, none⟩

/-- A report that points at a position. -/
def located (kind : Kind) (message : String) (position : Int) : Report :=
  ⟨kind, message, kind.defaultCode, some position⟩

/-- The wording for the user: the headline, and the message where it adds
    something. -/
def describe (r : Report) : String :=
  match r.kind.headline? with
  | none => r.message
  | some headline => if r.kind = .emptyInput then headline else s!"{headline}: {r.message}"

/-- The message of a report on blank input, if it is given none. -/
def emptyInputMessage : String := "Please enter a mathematical expression"

end Report

/-- Why an expression is rejected. -/
inductive Rejection
  | blank
  | tooLong (limit : Int)
  | tooDeep (limit : Int)
  | unreadable (error : ScanError)
  | malformed (error : GrammarError)
  | math (error : MathError)
deriving DecidableEq

/-- The report on a rejected expression. -/
def Rejection.report : Rejection → Report
  | .blank => .make .emptyInput Report.emptyInputMessage none
  | .tooLong limit =>
    .make .validation s!"Input too long (>{limit} characters)" (some "TOO_LONG")
  | .tooDeep limit =>
    .make .validation s!"Expression nested too deeply (>{limit} levels)" (some "TOO_DEEP")
  | .unreadable e => .located .lexical e.message e.position
  | .malformed e => .located .grammatical e.message e.position
  | .math e => .make .mathematical e.message none

/-- What a caller did wrong. `noValue` is a literal without a number, which a tree has only if its
    tokens were made by hand. -/
inductive Fault
  | unknownOperator (symbol : String)
  | unknownFunction (name : String)
  | unknownPrecedence (symbol : String)
  | notAnExpression (shown : String)
  | noValue
  | noDecimal (shown : String)
  | places (fault : PlacesFault)
  | integer (text : String) (fault : Text.IntegerFault)
  | negativeHistory
  | hugeHistory
  | level (fault : LevelFault)
  | disk (fault : DiskFault)
  | nothingToPrint
deriving DecidableEq

/-- How much of a quoted text a message about a bad integer shows. -/
def quotedLimit : Nat := 200

/-- The wording of a fault. -/
def Fault.message : Fault → String
  | .unknownOperator symbol => s!"Unknown operator: {symbol}"
  | .unknownFunction name => s!"Unknown function: {name}"
  | .unknownPrecedence symbol => Text.quoted symbol
  | .notAnExpression shown => s!"Not an expression node: {Text.quoted shown}"
  | .noValue => "Literal without a value"
  | .noDecimal shown => s!"invalid input: {shown}"
  | .places fault => fault.message
  | .integer text .malformed =>
    "invalid literal for int() with base 10: " ++
      String.ofList ((Text.quoted text).toList.take quotedLimit)
  | .integer _ (.tooLong digits) =>
    s!"Exceeds the limit ({Text.digitLimit} digits) for integer string conversion: " ++
      s!"value has {digits} digits; use sys.set_int_max_str_digits() to increase the limit"
  | .negativeHistory => "maxlen must be non-negative"
  | .hugeHistory => "Python int too large to convert to C ssize_t"
  | .level fault => fault.message
  | .disk fault => fault.message
  | .nothingToPrint => "'NoneType' object has no attribute 'is_integer'"

/-- Why there is no answer. -/
inductive Failure
  | rejection (cause : Rejection)
  | fault (cause : Fault)
deriving DecidableEq

namespace Failure

/-- A text without tokens, as a failure. -/
def ofScan (e : ScanError) : Failure := .rejection (.unreadable e)

/-- Tokens without a tree, as a failure. -/
def ofParse : ParseError → Failure
  | .malformed e => .rejection (.malformed e)
  | .tooDeep limit => .rejection (.tooDeep limit)
  | .unknownOperator symbol => .fault (.unknownPrecedence symbol)

/-- A tree without a value, as a failure. -/
def ofEvaluation : EvaluationError → Failure
  | .math e => .rejection (.math e)
  | .unknownOperator symbol => .fault (.unknownOperator symbol)
  | .unknownFunction name => .fault (.unknownFunction name)
  | .notAnExpression shown => .fault (.notAnExpression shown)
  | .noValue => .fault .noValue
  | .noDecimal shown => .fault (.noDecimal shown)
  | .places f => .fault (.places f)

end Failure

end Reckoner
