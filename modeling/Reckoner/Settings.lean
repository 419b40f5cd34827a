import Reckoner.Failure
import Reckoner.Text.Upper

/-!
# Settings

What can be set from outside, through environment variables: two limits on the
input, the number of decimal places in steps, the size of the history, and where
and how much to log. Numbers are read in a fixed order and the first bad one is
reported. They may be negative. A limit below zero rejects everything, and the
other two become faults where they are used.

## Main definitions

* `Settings`: The settings in force.
* `Settings.defaults`: The settings without any variables.
* `Settings.ofEnvironment`: The settings under given variables.
-/

namespace Reckoner

/-- The version of the calculator. -/
def version : String := "1.0.0"

/-- The settings in force. -/
structure Settings where
  maxLength : Int
  maxDepth : Int
  decimals : Int
  historySize : Int
  logLevel : String
  logFile : Option String
deriving DecidableEq, Repr

namespace Settings

/-- The settings without any variables. -/
def defaults : Settings := ⟨1000, 100, 6, 10, "WARNING", none⟩

/-- The integer in a variable, or its default if the variable is not set. -/
def integerOr (default : Int) (value : Option String) : Except Fault Int :=
  match value with
  | none => .ok default
  | some text => (Text.readInteger text).mapError (.integer text)

/-- The variables that are looked at. -/
def variableNames : List String :=
  ["STEPCALC_MAX_INPUT_LENGTH", "STEPCALC_MAX_EXPRESSION_DEPTH", "STEPCALC_OUTPUT_DECIMALS",
    "STEPCALC_LOG_LEVEL", "STEPCALC_LOG_FILE", "STEPCALC_HISTORY_SIZE"]

/-- The settings under the given variables. An empty log file is no log file. -/
def ofEnvironment (lookup : String → Option String) : Except Fault Settings := do
  let maxLength ← integerOr defaults.maxLength (lookup "STEPCALC_MAX_INPUT_LENGTH")
  let maxDepth ← integerOr defaults.maxDepth (lookup "STEPCALC_MAX_EXPRESSION_DEPTH")
  let decimals ← integerOr defaults.decimals (lookup "STEPCALC_OUTPUT_DECIMALS")
  let logLevel := ((lookup "STEPCALC_LOG_LEVEL").map Text.upper).getD defaults.logLevel
  let logFile := (lookup "STEPCALC_LOG_FILE").filter fun file => !file.isEmpty
  let historySize ← integerOr defaults.historySize (lookup "STEPCALC_HISTORY_SIZE")
  return ⟨maxLength, maxDepth, decimals, historySize, logLevel, logFile⟩

end Settings

end Reckoner
