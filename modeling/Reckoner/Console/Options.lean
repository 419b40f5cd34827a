import Reckoner.Answer
import Reckoner.Settings

/-!
# Command Line Options

How the words of a command line are understood. Every word is classified before
any is acted upon: it is an option, or it is plain. Options can be spelled out,
abbreviated as far as they stay unambiguous, joined to their value by an equals
sign, and, if they have a single letter, bundled behind one dash. A word that
starts with a dash is still plain if it is a negative number or holds a blank
and is no option. Nothing after a double dash is an option.

The command line takes no plain words except as values, so whatever is left over
at the end is reported together. The first mistake in reading order is reported
before that, except that an ambiguous abbreviation anywhere comes first of all.
Asking for help ends the reading at once, and hides any later mistake.

A double dash joined to an option stands for no value at all. The option is then
given, but there is nothing in it; `Given` tells this from an option that is not
given.

## Main definitions

* `Switch`: The options, with their spellings.
* `UsageError`: What is wrong with a command line.
* `Reading`: What one word is.
* `unbundle`: The options in one word.
* `Given`: What is known about an option with a value.
* `Options`: What a command line asks for.
* `Options.ofArguments`: The reading of a command line.
-/

namespace Reckoner

/-- The options of the command line. -/
inductive Switch
  | help
  | expression
  | format
  | precision
  | version
  | logLevel
  | logFile
  | healthCheck
deriving DecidableEq, Repr

namespace Switch

/-- All options, in the order in which they are described. -/
def all : List Switch :=
  [.help, .expression, .format, .precision, .version, .logLevel, .logFile, .healthCheck]

/-- The spellings of an option, the short one first. -/
def spellings : Switch → List String
  | .help => ["-h", "--help"]
  | .expression => ["-e", "--eval"]
  | .format => ["--format"]
  | .precision => ["-p", "--precision"]
  | .version => ["-v", "--version"]
  | .logLevel => ["--log-level"]
  | .logFile => ["--log-file"]
  | .healthCheck => ["--health-check"]

/-- Whether an option needs a value. -/
def takesValue : Switch → Bool
  | .help => false
  | .version => false
  | .healthCheck => false
  | _ => true

/-- All spellings with their options. -/
def table : List (String × Switch) :=
  all.flatMap fun switch => switch.spellings.map fun spelling => (spelling, switch)

/-- The option with exactly this spelling. -/
def ofSpelling? (word : List Char) : Option Switch := table.lookup (String.ofList word)

/-- The option as it is named in messages. -/
def title (switch : Switch) : String := String.intercalate "/" switch.spellings

end Switch

/-- Why a number of decimal places is refused on the command line. -/
inductive PrecisionFault
  | notInteger (text : String)
  | negative (value : Int)
deriving DecidableEq, Repr

/-- The wording of a refused number of decimal places. -/
def PrecisionFault.message : PrecisionFault → String
  | .notInteger text => s!"invalid integer: {Text.quoted text}"
  | .negative value => s!"precision must be zero or positive, got {value}"

/-- A number of decimal places on the command line. -/
def decimalPlaces (text : String) : Except PrecisionFault Int :=
  match Text.readInteger text with
  | .error _ => .error (.notInteger text)
  | .ok n => if n < 0 then .error (.negative n) else .ok n

/-- What is wrong with a command line. -/
inductive UsageError
  | expectedValue (switch : Switch)
  | ignoredValue (switch : Switch) (value : String)
  | invalidChoice (switch : Switch) (value : String) (choices : List String)
  | precision (fault : PrecisionFault)
  | ambiguous (word : String) (candidates : List String)
  | unrecognized (words : List String)
deriving DecidableEq, Repr

/-- The wording of a mistake on the command line. -/
def UsageError.message : UsageError → String
  | .expectedValue switch => s!"argument {switch.title}: expected one argument"
  | .ignoredValue switch value =>
    s!"argument {switch.title}: ignored explicit argument {Text.quoted value}"
  | .invalidChoice switch value choices =>
    let listed := String.intercalate ", " (choices.map Text.quoted)
    s!"argument {switch.title}: invalid choice: {Text.quoted value} (choose from {listed})"
  | .precision fault => s!"argument {Switch.precision.title}: {fault.message}"
  | .ambiguous word candidates =>
    let listed := String.intercalate ", " candidates
    s!"ambiguous option: {word} could match {listed}"
  | .unrecognized words => "unrecognized arguments: " ++ String.intercalate " " words

/-- What one word of a command line is. An option may have a value joined to it
    in the same word. -/
inductive Reading
  | plain
  | terminator
  | option (switch : Switch) (short : Bool) (joined : Option (List Char))
  | unknown
deriving DecidableEq

namespace Reading

/-- Whether a spelling has a single dash. -/
def isShort (word : List Char) : Bool :=
  match word with
  | _ :: '-' :: _ => false
  | _ => true

/-- What stands before and after the first equals sign, if there is one. -/
def splitAssignment (word : List Char) : List Char × Option (List Char) :=
  match word.dropWhile (· != '=') with
  | [] => (word, none)
  | _ :: value => (word.takeWhile (· != '='), some value)

/-- Whether all characters are decimal digits, and there is one at least. -/
def areDigits (cs : List Char) : Bool :=
  !cs.isEmpty && cs.all fun c => (Text.digitValue? c).isSome

/-- Whether a word is a plain negative number. A line end may follow. -/
def isNegativeNumber (word : List Char) : Bool :=
  match word with
  | '-' :: body =>
    let body := if body.getLast? = some '\n' then body.dropLast else body
    let isDigit (c : Char) : Bool := (Text.digitValue? c).isSome
    areDigits body ||
      match body.dropWhile isDigit with
      | '.' :: fraction => areDigits fraction
      | _ => false
  | _ => false

/-- The spellings that a word may abbreviate, with the options they stand for. -/
def candidates (word : List Char) : List (String × Reading) :=
  if isShort word then
    (Switch.table.filter fun entry => entry.1.toList == word.take 2).map fun entry =>
      (entry.1, .option entry.2 true (some (word.drop 2)))
  else
    let (stem, value) := splitAssignment word
    (Switch.table.filter fun entry => stem.isPrefixOf entry.1.toList).map fun entry =>
      (entry.1, .option entry.2 false value)

/-- The reading of a word that starts with a dash and has more than that. -/
def ofDashed (word : List Char) : Except UsageError Reading :=
  match Switch.ofSpelling? word with
  | some switch => .ok (.option switch (isShort word) none)
  | none =>
    let (stem, value) := splitAssignment word
    match value, Switch.ofSpelling? stem with
    | some v, some switch => .ok (.option switch (isShort stem) (some v))
    | _, _ =>
      match candidates word with
      | [(_, reading)] => .ok reading
      | [] => .ok (if isNegativeNumber word || word.contains ' ' then .plain else .unknown)
      | several => .error (.ambiguous (String.ofList word) (several.map fun entry => entry.1))

/-- The reading of a word. -/
def ofWord (word : String) : Except UsageError Reading :=
  match word.toList with
  | '-' :: c :: rest => ofDashed ('-' :: c :: rest)
  | _ => .ok .plain

/-- The readings of all words. After a double dash every word is plain. -/
def ofWords : List String → Except UsageError (List (String × Reading))
  | [] => .ok []
  | word :: rest =>
    if word = "--" then .ok ((word, .terminator) :: rest.map fun w => (w, .plain))
    else do
      let reading ← ofWord word
      let readings ← ofWords rest
      pure ((word, reading) :: readings)

end Reading

/-- The options found in one word: those that need nothing more, in order, with
    the values of those that have one; and one that still needs the next word. -/
structure Bundle where
  complete : List (Switch × List Char)
  waiting : Option Switch

/-- Take a word with options apart. A letter with a value takes the rest of the
    word, and a letter without one is followed by further letters. -/
def unbundle (switch : Switch) (short : Bool) (joined : Option (List Char))
    (before : List (Switch × List Char)) : Except UsageError Bundle :=
  match joined with
  | none =>
    if switch.takesValue then .ok ⟨before, some switch⟩
    else .ok ⟨before ++ [(switch, [])], none⟩
  | some value =>
    if switch.takesValue then .ok ⟨before ++ [(switch, value)], none⟩
    else
      match value with
      | [] => .error (.ignoredValue switch "")
      | c :: more =>
        match short, Switch.ofSpelling? ['-', c] with
        | true, some following =>
          unbundle following true (if more.isEmpty then none else some more)
            (before ++ [(switch, [])])
        | _, _ => .error (.ignoredValue switch (String.ofList (c :: more)))
termination_by (joined.map fun value => value.length + 1).getD 0
decreasing_by
  simp only [Option.map_some, Option.getD_some, List.length_cons]
  split <;> simp

/-- What is known about an option with a value: it is not given, it is given
    without anything in it, or it has a value. -/
inductive Given (α : Type)
  | absent
  | hollow
  | value (a : α)
deriving DecidableEq

/-- The value of an option, if it has one. -/
def Given.toOption {α : Type} : Given α → Option α
  | .value a => some a
  | _ => none

/-- What a command line asks for. -/
structure Options where
  expression : Given String
  format : Given Format
  precision : Given Int
  version : Bool
  logLevel : Given String
  logFile : Given String
  healthCheck : Bool
deriving DecidableEq

/-- What reading a command line leads to. -/
inductive CommandLine
  | run (options : Options)
  | help
deriving DecidableEq

namespace Options

/-- What an empty command line asks for. -/
def initial (settings : Settings) : Options :=
  ⟨.absent, .value .human, .absent, false, .value settings.logLevel, .absent, false⟩

/-- The formats by name. -/
def formats : List (String × Format) := [("json", .json), ("human", .human)]

/-- The levels that may be chosen. -/
def levels : List String := ["DEBUG", "INFO", "WARNING", "ERROR"]

/-- The options after one that has no value. None stands for the request for
    help. -/
def applyFlag (o : Options) : Switch → Option Options
  | .help => none
  | .version => some { o with version := true }
  | .healthCheck => some { o with healthCheck := true }
  | _ => some o

/-- The options after one that is given with nothing in it. -/
def applyHollow (o : Options) : Switch → Options
  | .expression => { o with expression := .hollow }
  | .format => { o with format := .hollow }
  | .precision => { o with precision := .hollow }
  | .logLevel => { o with logLevel := .hollow }
  | .logFile => { o with logFile := .hollow }
  | _ => o

/-- The options after one with a value, which has to be one that it accepts. -/
def applyValue (o : Options) (switch : Switch) (value : String) : Except UsageError Options :=
  match switch with
  | .expression => .ok { o with expression := .value value }
  | .format =>
    match formats.lookup value with
    | some format => .ok { o with format := .value format }
    | none => .error (.invalidChoice .format value (formats.map fun entry => entry.1))
  | .precision =>
    match decimalPlaces value with
    | .ok n => .ok { o with precision := .value n }
    | .error fault => .error (.precision fault)
  | .logLevel =>
    if levels.contains value then .ok { o with logLevel := .value value }
    else .error (.invalidChoice .logLevel value levels)
  | .logFile => .ok { o with logFile := .value value }
  | _ => .ok o

/-- The options after one more. -/
def apply (o : Options) (switch : Switch) (value : List Char) :
    Except UsageError (Option Options) :=
  if switch.takesValue then
    if value = ['-', '-'] then .ok (some (o.applyHollow switch))
    else (o.applyValue switch (String.ofList value)).map some
  else .ok (o.applyFlag switch)

/-- The options after several more. -/
def applyAll (o : Options) : List (Switch × List Char) → Except UsageError (Option Options)
  | [] => .ok (some o)
  | (switch, value) :: rest =>
    match o.apply switch value with
    | .error e => .error e
    | .ok none => .ok none
    | .ok (some next) => next.applyAll rest

/-- Act upon the words of a command line, in order, and collect what is left
    over. -/
def consume (o : Options) (leftover : List String) :
    List (String × Reading) → Except UsageError CommandLine
  | [] => if leftover.isEmpty then .ok (.run o) else .error (.unrecognized leftover)
  | (word, reading) :: rest =>
    match reading with
    | .option switch short joined =>
      match unbundle switch short joined [] with
      | .error e => .error e
      | .ok ⟨complete, none⟩ =>
        match o.applyAll complete with
        | .error e => .error e
        | .ok none => .ok .help
        | .ok (some next) => next.consume leftover rest
      | .ok ⟨complete, some waiting⟩ =>
        match rest with
        | (value, .plain) :: rest =>
          match o.applyAll (complete ++ [(waiting, value.toList)]) with
          | .error e => .error e
          | .ok none => .ok .help
          | .ok (some next) => next.consume leftover rest
        | _ => .error (.expectedValue waiting)
    | _ => o.consume (leftover ++ [word]) rest

/-- The reading of a command line. -/
def ofArguments (settings : Settings) (arguments : List String) :
    Except UsageError CommandLine :=
  match Reading.ofWords arguments with
  | .error e => .error e
  | .ok readings => (initial settings).consume [] readings

/-- The format in which answers are printed. -/
def chosenFormat (o : Options) : Format := o.format.toOption.getD .human

/-- The number of decimal places that is asked for. One that is given with
    nothing in it cannot be used, just like a negative one. -/
def places (o : Options) : Option Int :=
  match o.precision with
  | .absent => none
  | .hollow => some (-1)
  | .value n => some n

end Options

end Reckoner
