import Reckoner.Console.Health
import Reckoner.Console.Options
import Reckoner.Console.Session
import Reckoner.Log.Logbook

/-!
# Runs of the Program

From a command line to an exit code. A mistake on the command line and a request
for help end a run before anything is set up. Otherwise logging is set up, and
the run does the first thing that was asked for: show the version, check its
health, answer one expression, or start a session.

What is done is separated from what is logged. `perform` makes a transcript and
knows nothing of loggers, and `run` hands the records of that transcript to the
logger afterwards. That holds for a run that ends in a fault too: it shows what it has
printed and written until then, and has a fault in place of an exit code.

## Main definitions

* `Console.usage`, `Console.helpText`: What is printed about the command line.
* `Console.linesOf`: The lines of a text.
* `Console.perform`: What the options ask for.
* `Outcome`: The visible result of a run.
* `Console.run`: A run of the program.
-/

namespace Reckoner

namespace Console

/-- The lines that sum up the command line. -/
def usage : String :=
  "usage: stepcalc [-h] [-e EVAL_EXPR] [--format \x7bjson,human\x7d] [-p PRECISION]\n" ++
    "                [-v] [--log-level \x7bDEBUG,INFO,WARNING,ERROR\x7d]\n" ++
    "                [--log-file LOG_FILE] [--health-check]\n"

/-- The text that explains the command line. -/
def helpText : String :=
  usage ++
    "\n" ++
    "options:\n" ++
    "  -h, --help            show this help message and exit\n" ++
    "  -e EVAL_EXPR, --eval EVAL_EXPR\n" ++
    "                        Solve one expression and exit (non-interactive)\n" ++
    "  --format \x7bjson,human\x7d\n" ++
    "                        Output format: json (machine-readable) or human\n" ++
    "                        (human-readable)\n" ++
    "  -p PRECISION, --precision PRECISION\n" ++
    "                        Decimal places for sqrt, trig and log steps\n" ++
    "  -v, --version         Show program version\n" ++
    "  --log-level \x7bDEBUG,INFO,WARNING,ERROR\x7d\n" ++
    "                        Set logging level (default: STEPCALC_LOG_LEVEL or\n" ++
    "                        WARNING)\n" ++
    "  --log-file LOG_FILE   Write logs to file\n" ++
    "  --health-check        Run health check and verify dependencies\n"

/-- What is printed about a mistake on the command line. -/
def complaint (e : UsageError) : String := usage ++ s!"stepcalc: error: {e.message}\n"

/-- An option with a value, for the log. -/
def describeGiven {α : Type} (describe : α → String) : Given α → String
  | .absent => noneText
  | .hollow => "[]"
  | .value a => describe a

/-- The quoted name of a format. -/
def formatText : Format → String
  | .human => Text.quoted "human"
  | .json => Text.quoted "json"

/-- The options in one line, for the log. -/
def describe (o : Options) : String :=
  let flag (b : Bool) : String := if b then "True" else "False"
  "\x7b" ++ s!"'eval_expr': {describeGiven Text.quoted o.expression}, " ++
    s!"'format': {describeGiven formatText o.format}, " ++
    s!"'precision': {describeGiven toString o.precision}, 'version': {flag o.version}, " ++
    s!"'log_level': {describeGiven Text.quoted o.logLevel}, " ++
    s!"'log_file': {describeGiven Text.quoted o.logFile}, " ++
    s!"'health_check': {flag o.healthCheck}" ++ "\x7d"

/-- The record that opens a run. -/
def opening (o : Options) : Record :=
  .debug "cli" s!"Stepcalc {version} starting with {describe o}"

/-- The lines of characters, of which the first one has begun already. What it has
    begun with is in reverse order. -/
def linesFrom (begun : List Char) : List Char → List String
  | [] => if begun.isEmpty then [] else [String.ofList begun.reverse]
  | c :: rest =>
    if c = '\n' then String.ofList begun.reverse :: linesFrom [] rest
    else linesFrom (c :: begun) rest

/-- The lines of a text. Only a line feed ends a line, and the last line need
    not end. -/
def linesOf (input : String) : List String := linesFrom [] input.toList

/-- The answer to one expression, shown as the given document where it is
    repeated, with the exit code. -/
def answerOnce [Numerics] (settings : Settings) (o : Options) (text : String) (shown : Json) :
    Stretch Nat :=
  (Stretch.answering settings o.places text fun a => a.printedFor shown o.chosenFormat).map
    fun a => if a.ok then 0 else 1

/-- What the options ask for, with the exit code. An expression with nothing in
    it is answered like a blank one. -/
def perform [Numerics] (settings : Settings) (o : Options) (clock : String) (lines : List String) :
    Stretch Nat :=
  if o.version then (Stretch.say (version ++ "\n")).map fun _ => 0
  else if o.healthCheck then Health.report settings
  else
    match o.expression with
    | .value text => answerOnce settings o text (.text text)
    | .hollow => answerOnce settings o "" (.array [])
    | .absent => (Session.whole settings o.chosenFormat o.places clock lines).map fun _ => 0

end Console

/-- The visible result of a run: how it ends, and what it has printed and written by then.
    A run that a fault ends has no exit code. -/
structure Outcome where
  exit : Except Fault Nat
  output : String
  errors : String
  files : Files

namespace Console

/-- A run with options that were understood. -/
def runOptions [Numerics] (settings : Settings) (stamp clock : String) (disk : Disk) (files : Files)
    (o : Options) (lines : List String) : Outcome :=
  match Logger.setup disk settings o.logLevel.toOption o.logFile.toOption with
  | (_, .error f) => ⟨.error f, "", "", files⟩
  | (logger, .ok ()) =>
    let done := perform settings o clock lines
    let (book, shown) :=
      (Logbook.opened logger files).write stamp (opening o :: done.transcript.records)
    ⟨done.ending, done.transcript.output, shown, book.files⟩

/-- A run of the program with the given arguments and input. Records are stamped
    with one time and history entries with another. -/
def run [Numerics] (settings : Settings) (stamp clock : String) (disk : Disk) (files : Files)
    (arguments : List String) (input : String) : Outcome :=
  match Options.ofArguments settings arguments with
  | .error e => ⟨.ok 2, "", complaint e, files⟩
  | .ok .help => ⟨.ok 0, helpText, "", files⟩
  | .ok (.run o) => runOptions settings stamp clock disk files o (linesOf input)

end Console

end Reckoner
