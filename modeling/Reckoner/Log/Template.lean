import Reckoner.Log.Place
import Reckoner.Number.Machine

/-!
# Message Templates

A log message may be a template whose places are filled with arguments. A place
starts with a percent sign and ends with the letter of a conversion. In between
stand flags, a width and a precision, all of them optional, and a letter for the
size of the argument, which means nothing here. Width and precision may be stars,
and are then taken from the arguments as well. Two percent signs stand for one.

Every argument has to be used, and there have to be enough of them. The first
fault from the left is the one reported.

## Main definitions

* `TemplateFault`: Why a template cannot be filled.
* `Template.Supply`: The text and the arguments that are still to be used.
* `Template.layout`: The layout at the front of a text.
* `Template.fill`: The filled template.
-/

namespace Reckoner

/-- Why a template cannot be filled. -/
inductive TemplateFault
  | tooFew
  | tooMany
  | place (fault : PlaceFault)
  | starNotInteger
  | widthTooBig
  | precisionTooBig
  | keyed
  | incomplete
deriving DecidableEq, Repr

/-- The wording of a fault in a template. -/
def TemplateFault.message : TemplateFault → String
  | .tooFew => "not enough arguments for format string"
  | .tooMany => "not all arguments converted during string formatting"
  | .place fault => fault.message
  | .starNotInteger => "* wants int"
  | .widthTooBig => "width too big"
  | .precisionTooBig => "precision too big"
  | .keyed => "format requires a mapping"
  | .incomplete => "incomplete format"

namespace Template

/-- The text and the arguments that are still to be used. -/
structure Supply where
  text : List Char
  arguments : List Argument

/-- The number at the front of the text: digits, or a star for an argument. No
    digits are zero. -/
def numberAt (limit : Nat) (tooBig : TemplateFault) (s : Supply) :
    Except TemplateFault (Int × Supply) :=
  match s.text with
  | '*' :: rest =>
    match s.arguments with
    | [] => .error .tooFew
    | argument :: more =>
      match argument.integer? with
      | some n => .ok (n, ⟨rest, more⟩)
      | none => .error .starNotInteger
  | cs =>
    let n := Nat.ofDigitChars 10 (cs.takeWhile Char.isDigit) 0
    if limit < n then .error tooBig
    else .ok (n, ⟨cs.dropWhile Char.isDigit, s.arguments⟩)

/-- Whether a character is a flag. -/
def isFlag (c : Char) : Bool := ['-', '0', '+', ' ', '#'].contains c

/-- Whether a letter gives the size of an argument. -/
def isSize (c : Char) : Bool := ['h', 'l', 'L'].contains c

/-- The layout at the front of a text, and what is left after it. A negative
    width from an argument means alignment to the left. -/
def layout (s : Supply) : Except TemplateFault (Layout × Supply) := do
  let flags := s.text.takeWhile isFlag
  let (width, s) ←
    numberAt maxWord.toNat .widthTooBig ⟨s.text.dropWhile isFlag, s.arguments⟩
  let (precision, s) ←
    match s.text with
    | '.' :: rest => do
      let (n, s) ← numberAt maxHalfWord.toNat .precisionTooBig ⟨rest, s.arguments⟩
      pure (some n.toNat, s)
    | _ => pure (none, s)
  let text :=
    match s.text with
    | c :: rest => if isSize c then rest else c :: rest
    | [] => []
  pure (⟨flags.contains '-' || decide (width < 0), flags.contains '0', flags.contains '+',
    flags.contains ' ', flags.contains '#', width.natAbs, precision⟩, ⟨text, s.arguments⟩)

/-- Fill the place after a percent sign. The letter's index is counted from the
    end of the template, whose length is given. -/
def fillPlace (length : Nat) (s : Supply) : Except TemplateFault (List Char × Supply) := do
  if s.text.head? = some '(' then throw .keyed
  let (l, s) ← layout s
  match s.text, s.arguments with
  | [], _ => throw .incomplete
  | _ :: _, [] => throw .tooFew
  | letter :: rest, argument :: more =>
    let filled ← (l.place letter (length - rest.length - 1) argument).mapError .place
    pure (filled, ⟨rest, more⟩)

/-- Fill all places of a template. The fuel bounds their number. -/
def fillFrom (length : Nat) : Nat → Supply → Except TemplateFault (List Char)
  | 0, _ => .error .incomplete
  | fuel + 1, s =>
    let plain := s.text.takeWhile (· != '%')
    match s.text.dropWhile (· != '%') with
    | [] => if s.arguments.isEmpty then .ok plain else .error .tooMany
    | _ :: '%' :: rest => do
      let filled ← fillFrom length fuel ⟨rest, s.arguments⟩
      pure (plain ++ '%' :: filled)
    | _ :: rest => do
      let (here, s) ← fillPlace length ⟨rest, s.arguments⟩
      let filled ← fillFrom length fuel s
      pure (plain ++ here ++ filled)

/-- The filled template. A template without arguments is taken as it stands. -/
def fill (template : String) (arguments : List Argument) : Except TemplateFault String :=
  if arguments.isEmpty then .ok template
  else
    (fillFrom template.length (template.length + 1) ⟨template.toList, arguments⟩).map
      String.ofList

end Template

end Reckoner
