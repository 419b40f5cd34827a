import Reckoner.Log.Disk
import Reckoner.Log.Record
import Reckoner.Settings

/-!
# The Logger

Where records go. Setting up the logger fixes a threshold, a console and possibly a
file, in place of whatever was there before. A record at or above the threshold is
written once to each of them.

That is the outcome of a small machine. A logger has a list of handlers, and setting
it up takes every handler out before new ones are put in. A record is made with a
logger for one part of the calculator, which has no handlers and no level, and looks
for both on its way up: through the logger that is set up, and on to the one above all
unless that is forbidden, which is the other thing that setting up does.

Before anything is set up there are no handlers on the way. What becomes of a record
that meets none is not followed here, and nothing is written of it.

The file is opened last. If it does not open, setting up ends in a fault, but what has been
done by then is done: the level is the new one, the old handlers are gone, and the console
is the only handler there is. A level that is none is noticed first, and changes nothing.

Files outlive their logger. They come into being empty when a logger is set up
to write to them, and everything written is appended, so what a file holds is
always the beginning of what it will hold later. A handler has the file that its name
has led to, so two names of one file are no two files.

## Main definitions

* `Files`: The contents of log files.
* `Handler`: A place that records are written to.
* `Logger`: The level and the handlers of a logger.
* `Logger.refit`, `Logger.setupFrom`, `Logger.setup`: A logger set up anew.
* `Logger.chain`: The loggers on the way of a record.
* `Logger.passes`: Whether a record is written.
* `Logger.places`: Where a record is written.
* `Logger.written`, `Logger.writtenAll`: The text that records become.
* `Logger.toConsole`, `Logger.toFile`: Writing records.

## Theorems

* `effectiveLevel_chain`: The level on the way of a record.
* `reached_chain`: The handlers on the way of a record.
-/

namespace Reckoner

/-- The contents of log files. -/
abbrev Files := List (String × String)

namespace Files

/-- What a file holds, if it exists. -/
def content? (files : Files) (file : String) : Option String := files.lookup file

/-- The files after a text is appended to one of them, which is created if
    necessary. -/
def append (files : Files) (file text : String) : Files :=
  match files with
  | [] => [(file, text)]
  | (other, content) :: rest =>
    if other = file then (other, content ++ text) :: rest
    else (other, content) :: append rest file text

end Files

/-- A place that records are written to. -/
inductive Handler
  | console
  | file (file : String)
deriving DecidableEq, Repr

/-- The files after a text is written to a place. -/
def Files.deliver (files : Files) (delivery : Handler × String) : Files :=
  match delivery with
  | (.console, _) => files
  | (.file file, text) => files.append file text

/-- The level of a logger, the places it writes to, and whether it passes records on to
    the logger above it. -/
structure Logger where
  level : Level
  handlers : List Handler
  propagates : Bool
deriving DecidableEq, Repr

namespace Logger

/-- A logger before it is set up. -/
def fresh : Logger := ⟨.unset, [], true⟩

/-- The logger above all others, which is never set up. -/
def top : Logger := ⟨.warning, [], true⟩

/-! ## Setting up -/

/-- A text unless it is missing or empty. -/
def nonempty (s : Option String) : Option String := s.filter fun t => !t.isEmpty

/-- The level of a name in any case of letters, or that of the settings. -/
def chosenLevel (settings : Settings) (level : Option String) : Except LevelFault Level :=
  Level.called (Text.upper ((nonempty level).getD settings.logLevel))

/-- The name of the given file, or that of the settings. -/
def chosenFile (settings : Settings) (file : Option String) : Option String :=
  nonempty ((nonempty file).orElse fun _ => settings.logFile)

/-- The logger without a handler. -/
def removeHandler (l : Logger) (h : Handler) : Logger := { l with handlers := l.handlers.erase h }

/-- The logger with another handler, which it has not had so far. -/
def addHandler (l : Logger) (h : Handler) : Logger := { l with handlers := l.handlers ++ [h] }

/-- The logger with a level, a console, and possibly a file, which is opened last. All
    handlers that it had are removed first, one by one. A file that does not open is
    reported, and everything else stays done. -/
def refit (l : Logger) (disk : Disk) (level : Level) (file : Option String) :
    Logger × Except Fault Unit :=
  let closed : Logger := { l with level := level, propagates := false }
  let bare := l.handlers.foldl removeHandler closed
  let attended := bare.addHandler .console
  match file.map disk with
  | none => (attended, .ok ())
  | some (.error fault) => (attended, .error (.disk fault))
  | some (.ok opened) => (attended.addHandler (.file opened), .ok ())

/-- The logger set up again. A name that is known but is no level changes nothing. -/
def setupFrom (l : Logger) (disk : Disk) (settings : Settings) (level file : Option String) :
    Logger × Except Fault Unit :=
  match chosenLevel settings level with
  | .error fault => (l, .error (.level fault))
  | .ok chosen => l.refit disk chosen (chosenFile settings file)

/-- A logger set up with the level of a name in any case of letters and with a
    file, or with those of the settings. -/
def setup (disk : Disk) (settings : Settings) (level file : Option String) :
    Logger × Except Fault Unit :=
  fresh.setupFrom disk settings level file

/-- Creating the files of a logger, if it has any. -/
def openFile (l : Logger) (files : Files) : Files :=
  (l.handlers.map fun h => (h, "")).foldl Files.deliver files

/-! ## The way of a record -/

/-- The loggers on the way of a record, from the one it was made with. Each dot in the
    name of that one leads up to our logger. None below ours has settings of its own. -/
def chain (l : Logger) (r : Record) : List Logger :=
  List.replicate (r.logger.toList.count '.') fresh ++ [l, top]

/-- The level of the first logger that has one. -/
def effectiveLevel : List Logger → Level
  | [] => .unset
  | l :: above => if l.level = .unset then effectiveLevel above else l.level

/-- The handlers of all loggers up to the first that passes nothing on. -/
def reached : List Logger → List Handler
  | [] => []
  | l :: above => l.handlers ++ if l.propagates then reached above else []

/-- Whether a record is written. -/
def passes (l : Logger) (r : Record) : Bool :=
  (effectiveLevel (l.chain r)).severity ≤ r.level.severity

/-- The places that a record is written to, one after the other. -/
def places (l : Logger) (r : Record) : List Handler :=
  if l.passes r then reached (l.chain r) else []

/-- The text that a record adds to each place. -/
def written (l : Logger) (time : String) (r : Record) : String :=
  if l.passes r then r.line time ++ "\n" else ""

/-- The text that records add to each place. -/
def writtenAll (l : Logger) (time : String) (rs : List Record) : String :=
  String.join (rs.map (l.written time))

/-- What is written of records, and where. -/
def deliveries (l : Logger) (time : String) (rs : List Record) : List (Handler × String) :=
  rs.flatMap fun r => (l.places r).map fun h => (h, r.line time ++ "\n")

/-- What records add to the console. -/
def toConsole (l : Logger) (time : String) (rs : List Record) : String :=
  String.join (((l.deliveries time rs).filter fun d => d.1 = .console).map Prod.snd)

/-- The files after records are written. -/
def toFile (l : Logger) (time : String) (rs : List Record) (files : Files) : Files :=
  (l.deliveries time rs).foldl Files.deliver files

/-- The loggers below ours have no level, and the one above all writes warnings. -/
theorem effectiveLevel_chain (l : Logger) (r : Record) :
    effectiveLevel (l.chain r) = if l.level = .unset then .warning else l.level := by
  rw [chain]
  induction r.logger.toList.count '.' with
  | zero => rfl
  | succ depth ih => exact ih

/-- The loggers below ours have no handlers, and neither has the one above all. -/
theorem reached_chain (l : Logger) (r : Record) : reached (l.chain r) = l.handlers := by
  rw [chain]
  induction r.logger.toList.count '.' with
  | zero =>
      show l.handlers ++ (if l.propagates then [] else []) = l.handlers
      rw [ite_self, List.append_nil]
  | succ depth ih => exact ih

end Logger

end Reckoner
