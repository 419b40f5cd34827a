import Reckoner.Console.Transcript
import Reckoner.History

/-!
# Interactive Sessions

A session reads lines until it is told to stop or there are no more. Each line
is cut at both ends first. An empty line is passed over, five words are commands
in any case of letters, and everything else is an expression: it is answered on
the spot and, if it has a value, remembered.

A line is one `turn`, from a history to a history. Nothing else is carried from
line to line, so the answer to an expression does not depend on what was asked
before it. If a turn ends in a fault, so does the session, right there.

## Main definitions

* `Command`: What a line asks for.
* `Turn`: What comes of one line.
* `Session.turn`: What a line does.
* `Session.run`: What all lines do.
* `Session.whole`: A whole session.
-/

namespace Reckoner

/-- What a line asks for. -/
inductive Command
  | nothing
  | quit
  | help
  | history
  | clear
  | solve (expression : String)
deriving DecidableEq, Repr

namespace Command

/-- A text with its plain letters in lower case. No other letter has a plain
    letter of a command word as its lower case. -/
def lower (s : String) : String := String.ofList (s.toList.map Char.toLower)

/-- What a line asks for. -/
def ofLine (line : String) : Command :=
  let text := Text.strip line
  let word := lower text
  if text.isEmpty then .nothing
  else if word = "quit" ∨ word = "exit" then .quit
  else if word = "help" then .help
  else if word = "history" then .history
  else if word = "clear" then .clear
  else .solve text

end Command

/-- What comes of one line. -/
structure Turn where
  history : History
  finished : Bool

namespace Session

/-- The line that opens a session. -/
def greeting : String := "Stepcalc: type 'help' for commands, 'quit' to exit.\n"

/-- What stands in front of every line that is read. -/
def prompt : String := ">>> "

/-- What is printed when a session ends on request. -/
def farewell : String := "Goodbye.\n"

/-- The text that explains a session. -/
def helpText (settings : Settings) : String :=
  s!"Stepcalc version {version}\n" ++
    "\n" ++
    "Enter an expression to see a step-by-step solution:\n" ++
    "  2 + 3 * 4, (5 + 3) * 2, 4^2 + 3^2, 2π + 3\n" ++
    "  sqrt(16), sin(30), cos(60), tan(45)   (angles in degrees)\n" ++
    "  log(100) (base 10), ln(2) (base e)\n" ++
    "\n" ++
    "Commands:\n" ++
    s!"  history   show the last {settings.historySize} calculations\n" ++
    "  clear     clear the history\n" ++
    "  help      show this text\n" ++
    "  quit      exit (also 'exit' or Ctrl-D)\n"

/-- What a line does. -/
def turn [Numerics] (settings : Settings) (format : Format) (places : Option Int) (time : String)
    (h : History) (line : String) : Stretch Turn :=
  let saying (text : String) (t : Turn) : Stretch Turn := (Stretch.say text).map fun _ => t
  match Command.ofLine line with
  | .nothing => saying "" ⟨h, false⟩
  | .quit => saying farewell ⟨h, true⟩
  | .help => saying (helpText settings) ⟨h, false⟩
  | .history => saying h.printed ⟨h, false⟩
  | .clear => saying "History cleared.\n" ⟨h.clear, false⟩
  | .solve expression =>
    (Stretch.answering settings places expression fun a => a.printed format).map fun a =>
      ⟨h.record a time, false⟩

/-- What all lines do, up to the one that ends the session. -/
def run [Numerics] (settings : Settings) (format : Format) (places : Option Int) (time : String)
    (h : History) : List String → Stretch Unit
  | [] => .say (prompt ++ "\n" ++ farewell)
  | line :: rest => do
    .say prompt
    let t ← turn settings format places time h line
    if t.finished then pure () else run settings format places time t.history rest

/-- A whole session. The history is made before anything is said. -/
def whole [Numerics] (settings : Settings) (format : Format) (places : Option Int) (time : String)
    (lines : List String) : Stretch Unit :=
  match History.ofSize (some settings.historySize) with
  | .error f => .fault f
  | .ok h => do
    .say greeting
    run settings format places time h lines

end Session

end Reckoner
