import Reckoner.Log.Journal
import Reckoner.Log.Logger

/-!
# The Logbook

A logger at work. A logbook is a logger together with the files it has written
to, and it serves requests: to be set up, to log the solving or the checking of
an expression, to log a record made by hand. Setting up writes nothing but
changes what happens to later records; every other request writes its records
and changes nothing else.

A request may meet a fault. What it has written up to then stays written, what setting up
has changed stays changed, and the logbook goes on to serve.

A request is made at a moment, and so are its records. What names of files lead to may
be different at each of them.

## Main definitions

* `Logbook`: A logger and its files.
* `Moment`: When a request is made.
* `Logbook.write`: Writing records.
* `LogRequest`: What may be asked of a logbook.
* `LogRequest.journal`: The records that a request makes.
* `Served`: The effect of a request.
* `Logbook.record`, `Logbook.serve`: Serving a request.
* `Logbook.after`: The logbook after several requests, one after another.

## Theorems

* `write_logger`: Writing leaves the logger as it is.
-/

namespace Reckoner

/-- A logger, and the files that have been written to. -/
structure Logbook where
  logger : Logger
  files : Files

/-- When a request is made: the time on its records, and the disk that there is. -/
structure Moment where
  time : String
  disk : Disk

/-- What may be asked of a logbook. A note is made with the logger of one part. -/
inductive LogRequest
  | setup (level file : Option String)
  | solve (text : String)
  | check (text : String)
  | note (part : String) (level : Level) (message : String) (code : Option String)

/-- What is left of an outcome that nobody looks at. A rejection is no fault. -/
def Journal.faultOf {α : Type} : Except Failure α → Except Fault Unit
  | .error (.fault f) => .error f
  | _ => .ok ()

/-- The records that a request makes, and whether it meets a fault. -/
def LogRequest.journal [Numerics] (settings : Settings) : LogRequest → Logged Fault Unit
  | .setup _ _ => pure ()
  | .solve text => (Journal.solve settings none text).mapOutcome Journal.faultOf
  | .check text => (Journal.verdict settings text).mapOutcome fun outcome => outcome.map fun _ => ()
  | .note part level message code => .note ⟨loggerName part, level, message, code⟩

/-- The effect of a request: the logbook after it, what it shows on the console, and
    whether it meets a fault. -/
structure Served where
  book : Logbook
  shown : String
  outcome : Except Fault Unit

namespace Logbook

/-- The logbook before anything is set up. -/
def fresh : Logbook := ⟨.fresh, []⟩

/-- The logbook of a logger that has just been set up. -/
def opened (l : Logger) (files : Files) : Logbook := ⟨l, l.openFile files⟩

/-- The logbook after records are written, and what they show on the console. -/
def write (b : Logbook) (time : String) (rs : List Record) : Logbook × String :=
  (⟨b.logger, b.logger.toFile time rs b.files⟩, b.logger.toConsole time rs)

/-- The effect of setting the logger up again. No file comes into being if that fails. -/
def reopen (b : Logbook) (disk : Disk) (settings : Settings) (level file : Option String) :
    Served :=
  match b.logger.setupFrom disk settings level file with
  | (l, .error f) => ⟨⟨l, b.files⟩, "", .error f⟩
  | (l, .ok ()) => ⟨opened l b.files, "", .ok ()⟩

/-- The effect of a request that makes records. -/
def record (b : Logbook) (time : String) (made : Logged Fault Unit) : Served :=
  ⟨(b.write time made.records).1, (b.write time made.records).2, made.outcome⟩

/-- The effect of a request. -/
def serve [Numerics] (settings : Settings) (now : Moment) (b : Logbook) (r : LogRequest) :
    Served :=
  match r with
  | .setup level file => b.reopen now.disk settings level file
  | other => b.record now.time (other.journal settings)

/-- The logbook after several requests, each at a moment of its own. -/
def after [Numerics] (settings : Settings) (b : Logbook) (requests : List (Moment × LogRequest)) :
    Logbook :=
  requests.foldl (fun b request => (b.serve settings request.1 request.2).book) b

theorem write_logger (b : Logbook) (time : String) (rs : List Record) :
    (b.write time rs).1.logger = b.logger := rfl

end Logbook

end Reckoner
