/-!
# Log Levels

How severe a record is. Levels are numbers, and the usual ones have names, some
of them two. A name that is not known means warnings.

Two names are known without being those of a level: one stands for the plain
layout of log lines, the other for the table of all layouts. Asking for either
as a level is a fault, where asking for nonsense is not.

## Main definitions

* `Level`: How severe a record is.
* `Level.ofName?`: The level with a given name.
* `LevelFault`: What a name stands for that is no level.
* `Level.called`: The level that is meant by a name.
-/

namespace Reckoner

/-- How severe a record is; more severe is larger. -/
structure Level where
  severity : Nat
deriving DecidableEq, Repr

/-- What a name stands for that is known but is no level. -/
inductive LevelFault
  | layout
  | layoutTable
deriving DecidableEq, Repr

/-- The wording of a fault in the choice of a level. -/
def LevelFault.message : LevelFault → String
  | .layout => "Unknown level: '%(levelname)s:%(name)s:%(message)s'"
  | .layoutTable =>
    "Level not an integer or a valid string: \x7b'%': (<class 'logging.PercentStyle'>, " ++
      "'%(levelname)s:%(name)s:%(message)s'), '\x7b': (<class 'logging.StrFormatStyle'>, " ++
      "'\x7blevelname\x7d:\x7bname\x7d:\x7bmessage\x7d'), " ++
      "'$': (<class 'logging.StringTemplateStyle'>, " ++
      "'$\x7blevelname\x7d:$\x7bname\x7d:$\x7bmessage\x7d')\x7d"

namespace Level

/-- No level of its own. -/
def unset : Level := ⟨0⟩

def debug : Level := ⟨10⟩

def info : Level := ⟨20⟩

def warning : Level := ⟨30⟩

def error : Level := ⟨40⟩

def critical : Level := ⟨50⟩

/-- The level with a given name. Two levels have a second name. -/
def ofName? (s : String) : Option Level :=
  if s = "DEBUG" then some debug
  else if s = "INFO" then some info
  else if s = "WARNING" ∨ s = "WARN" then some warning
  else if s = "ERROR" then some error
  else if s = "CRITICAL" ∨ s = "FATAL" then some critical
  else if s = "NOTSET" then some unset
  else none

/-- The level that is meant by a name in capitals. -/
def called (s : String) : Except LevelFault Level :=
  if s = "BASIC_FORMAT" then .error .layout
  else if s = "_STYLES" then .error .layoutTable
  else .ok ((ofName? s).getD warning)

/-- The name of a level. -/
def name (l : Level) : String :=
  if l = debug then "DEBUG"
  else if l = info then "INFO"
  else if l = warning then "WARNING"
  else if l = error then "ERROR"
  else if l = critical then "CRITICAL"
  else if l = unset then "NOTSET"
  else s!"Level {l.severity}"

end Level

end Reckoner
