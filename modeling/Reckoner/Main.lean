import Reckoner.Console.Run
import Reckoner.Log.Timestamp
import Std.Time.DateTime.Timestamp

/-!
# The Program

The outermost layer: arguments, environment, clock, terminal and log file. It
reads and writes, and leaves every decision to `Console`. A session is the one
part that cannot wait for the end of its input, so it takes its turns here, one
line at a time; `Session.run` is the same loop over lines known in advance.

## Main definitions

* `main`: The program.
-/

namespace Reckoner

namespace Program

/-- The time now. -/
def now : IO Timestamp := do
  let nanos := (← Std.Time.Timestamp.now).toNanosecondsSinceUnixEpoch.val
  let micros := nanos / 1000
  return ⟨micros / 1000000, (micros % 1000000).toNat⟩

/-- The settings under the environment of the program. -/
def settings : IO (Except Fault Settings) := do
  let values ← Settings.variableNames.mapM fun name => do return (name, ← IO.getEnv name)
  return Settings.ofEnvironment fun name => (values.lookup name).join

/-- Append to a file, which is created if necessary. -/
def appendTo (file text : String) : IO Unit := do
  let handle ← IO.FS.Handle.mk file .append
  handle.putStr text
  handle.flush

/-- Write a text to a place. -/
def deliver (delivery : Handler × String) : IO Unit :=
  match delivery with
  | (.console, text) => IO.eprint text
  | (.file name, text) => appendTo name text

/-- Write records wherever the logger sends them. -/
def log (logger : Logger) (records : List Record) : IO Unit := do
  (logger.deliveries (← now).iso records).forM deliver

/-- What the system says about a file that does not open. -/
def diskFault (name : String) : IO.Error → DiskFault
  | .noFileOrDirectory path number reason => .refused number.toNat reason path
  | .inappropriateType _ number reason => .refused number.toNat reason name
  | .permissionDenied _ number reason => .refused number.toNat reason name
  | e => .unusable e.toString

/-- The disk as it is for one name. Asking for a file opens it, so it comes into being. -/
def diskFor (name : Option String) : IO Disk := do
  match name with
  | none => return .ok
  | some name =>
    try
      appendTo name ""
      return .ok
    catch e => return fun _ => .error (diskFault name e)

/-- Print the text of a transcript and write its records. -/
def present (logger : Logger) (t : Transcript) : IO Unit := do
  log logger t.records
  let output ← IO.getStdout
  output.putStr t.output
  output.flush

/-- Report a fault. -/
def fail (f : Fault) : IO UInt32 := do
  IO.eprintln f.message
  return 1

/-- Read lines and answer them until the session ends. -/
partial def converse (settings : Settings) (logger : Logger) (o : Options) (h : History) :
    IO UInt32 := do
  present logger (.say Session.prompt)
  let line ← (← IO.getStdin).getLine
  if line.isEmpty then
    present logger (.say ("\n" ++ Session.farewell))
    return 0
  let text := if line.endsWith "\n" then (line.dropEnd 1).toString else line
  let turn := Session.turn settings o.chosenFormat o.places (← now).clock h text
  present logger turn.transcript
  match turn.ending with
  | .error f => fail f
  | .ok t => if t.finished then return 0 else converse settings logger o t.history

/-- Do what the options ask for. -/
def perform (settings : Settings) (logger : Logger) (o : Options) : IO UInt32 := do
  log logger [Console.opening o]
  if o.version || o.healthCheck || o.expression != .absent then
    let done := Console.perform settings o "" []
    present logger done.transcript
    match done.ending with
    | .error f => fail f
    | .ok exit => return exit.toUInt32
  else
    match History.ofSize (some settings.historySize) with
    | .error f => fail f
    | .ok h =>
      present logger (.say Session.greeting)
      converse settings logger o h

end Program

end Reckoner

open Reckoner in
/-- The program. -/
def main (arguments : List String) : IO UInt32 := do
  match ← Program.settings with
  | .error f => Program.fail f
  | .ok settings =>
    match Options.ofArguments settings arguments with
    | .error e =>
      IO.eprint (Console.complaint e)
      return 2
    | .ok .help =>
      IO.print Console.helpText
      return 0
    | .ok (.run o) =>
      let disk ← Program.diskFor (Logger.chosenFile settings o.logFile.toOption)
      match Logger.setup disk settings o.logLevel.toOption o.logFile.toOption with
      | (_, .error f) => Program.fail f
      | (logger, .ok ()) => Program.perform settings logger o
