import Reckoner.Log.Level

/-!
# Log Records

One thing worth noting, as data: which part of the calculator noted it, how
severe it is, what it says. A record about a rejected expression also carries the
code of the rejection, so that records can be searched for it.

A record becomes a line only when it is written. The line starts with the time,
which is no part of the record.

## Main definitions

* `loggerName`: The name of the logger of one part of the calculator.
* `Record`: One thing worth noting.
* `Record.line`: The line that a record becomes.
-/

namespace Reckoner

/-- The name above all loggers. -/
def rootLogger : String := "stepcalc"

/-- The name of the logger of one part of the calculator. -/
def loggerName (part : String) : String := s!"{rootLogger}.{part}"

/-- One thing worth noting. -/
structure Record where
  logger : String
  level : Level
  message : String
  code : Option String
deriving DecidableEq, Repr

namespace Record

/-- A record for following what the calculator does. -/
def debug (part message : String) : Record := ⟨loggerName part, .debug, message, none⟩

/-- A record about something a user may want to know. -/
def info (part message : String) (code : Option String) : Record :=
  ⟨loggerName part, .info, message, code⟩

/-- The line that a record becomes, without its end. An empty code counts as
    none. -/
def line (r : Record) (time : String) : String :=
  let suffix :=
    match r.code with
    | some c => if c.isEmpty then "" else s!" [code={c}]"
    | none => ""
  s!"{time} [{r.level.name}] {r.logger}: {r.message}" ++ suffix

/-- The lines about an exception that a record may be followed by. -/
def exceptionLine (name message : String) : String :=
  let shown := s!"stepcalc_pkg.types.{name}"
  if message.isEmpty then shown else s!"{shown}: {message}"

end Record

end Reckoner
