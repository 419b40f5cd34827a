import Reckoner.Number.Significant
import Reckoner.Text.Quoted

/-!
# Places in a Template

A place in a message template takes one argument and says how to write it. The
letter at its end chooses a `Conversion`: texts as they are or quoted, integers
to base ten, eight or sixteen, numbers in three forms, single characters. The
`Layout` before the letter says how much room there is, on which side the blanks
go, and what is done with signs and zeros.

A number is laid out in three parts: a sign, a mark for its base, and its body.
Zeros that fill a place go between mark and body, blanks go outside of all three.

## Main definitions

* `Argument`: What may fill a place.
* `PlaceFault`: Why an argument cannot be written.
* `Conversion`: The ways of writing an argument, by letter.
* `Layout`: How an argument is laid out.
* `Layout.place`: An argument in its place.
-/

namespace Reckoner

/-- What may fill a place in a template. -/
inductive Argument
  | text (value : String)
  | integer (value : Int)
  | number (value : Double)
  | flag (value : Bool)
  | nothing

/-- Why an argument cannot be written in a place. -/
inductive PlaceFault
  | notNumeric (letter : Char) (found : String)
  | notInteger (letter : Char) (found : String)
  | notReal (found : String)
  | notCharacter
  | beyondCharacters
  | beyondDoubles
  | notFinite
  | unsupported (letter : Char) (index : Nat)
deriving DecidableEq, Repr

/-- The wording of a fault in a place. -/
def PlaceFault.message : PlaceFault → String
  | .notNumeric letter found => s!"%{letter} format: a real number is required, not {found}"
  | .notInteger letter found => s!"%{letter} format: an integer is required, not {found}"
  | .notReal found => s!"must be real number, not {found}"
  | .notCharacter => "%c requires int or char"
  | .beyondCharacters => "%c arg not in range(0x110000)"
  | .beyondDoubles => "int too large to convert to float"
  | .notFinite => "cannot convert float infinity to integer"
  | .unsupported letter index =>
    let shown := if 31 ≤ letter.toNat ∧ letter.toNat ≤ 126 then letter else '?'
    let code := String.ofList (Nat.toDigits 16 letter.toNat)
    s!"unsupported format character '{shown}' (0x{code}) at index {index}"

namespace Argument

/-- The kind of argument, in messages. -/
def label : Argument → String
  | .text _ => "str"
  | .integer _ => "int"
  | .number _ => "float"
  | .flag _ => "bool"
  | .nothing => "NoneType"

/-- The argument as it is. -/
def shown : Argument → String
  | .text s => s
  | .integer n => String.ofList (Numeral.ofInt n)
  | .number x => x.text
  | .flag true => "True"
  | .flag false => "False"
  | .nothing => "None"

/-- The argument with quotes around a text. -/
def quoted : Argument → String
  | .text s => Text.quoted s
  | other => other.shown

/-- The argument as an integer, without any conversion. -/
def integer? : Argument → Option Int
  | .integer n => some n
  | .flag b => some (if b then 1 else 0)
  | _ => none

end Argument

/-- The ways of writing an argument. Capitals are asked for by a capital letter. -/
inductive Conversion
  | shown
  | quoted
  | ascii
  | character
  | decimal
  | octal
  | hexadecimal (capitals : Bool)
  | fixed (capitals : Bool)
  | exponent (capitals : Bool)
  | general (capitals : Bool)
deriving DecidableEq, Repr

namespace Conversion

/-- The conversion that a letter stands for. -/
def ofLetter? : Char → Option Conversion
  | 's' => some .shown
  | 'r' => some .quoted
  | 'a' => some .ascii
  | 'c' => some .character
  | 'd' | 'i' | 'u' => some .decimal
  | 'o' => some .octal
  | 'x' => some (.hexadecimal false)
  | 'X' => some (.hexadecimal true)
  | 'f' => some (.fixed false)
  | 'F' => some (.fixed true)
  | 'e' => some (.exponent false)
  | 'E' => some (.exponent true)
  | 'g' => some (.general false)
  | 'G' => some (.general true)
  | _ => none

end Conversion

/-- How an argument is laid out in its place. -/
structure Layout where
  leftAligned : Bool
  zeros : Bool
  plus : Bool
  blank : Bool
  marked : Bool
  width : Nat
  precision : Option Nat
deriving DecidableEq, Repr

namespace Layout

/-- A text brought to the width of its layout with blanks. -/
def pad (l : Layout) (cs : List Char) : List Char :=
  let blanks := List.replicate (l.width - cs.length) ' '
  if l.leftAligned then cs ++ blanks else blanks ++ cs

/-- A text in its place, cut to the precision. -/
def placeText (l : Layout) (cs : List Char) : List Char :=
  pad l (match l.precision with | some n => cs.take n | none => cs)

/-- A number in its place, from its sign, the mark of its base and its body. -/
def placeNumber (l : Layout) (negative : Bool) (mark body : List Char) : List Char :=
  let sign := if negative then ['-'] else if l.plus then ['+'] else if l.blank then [' '] else []
  let front := sign ++ mark
  let fill := if l.zeros && !l.leftAligned then l.width - front.length - body.length else 0
  pad l (front ++ List.replicate fill '0' ++ body)

/-- Text in capitals if asked for. Only the letters of numerals occur in it. -/
def withCapitals (capitals : Bool) (cs : List Char) : List Char :=
  if capitals then cs.map Char.toUpper else cs

/-- An integer in its place, to a base. -/
def placeInteger (l : Layout) (base : Nat) (mark : List Char) (capitals : Bool) (n : Int) :
    List Char :=
  let ds := Nat.toDigits base n.natAbs
  let body := List.replicate (l.precision.getD 1 - ds.length) '0' ++ ds
  l.placeNumber (decide (n < 0)) (if l.marked then withCapitals capitals mark else [])
    (withCapitals capitals body)

/-- A double in its place, given the form of finite values. -/
def placeDouble (l : Layout) (form : Decimal → List Char) (capitals : Bool) (x : Double) :
    List Char :=
  let body :=
    match x with
    | .finite _ m e _ => form (Decimal.ofBinary m e)
    | .infinite _ => ['i', 'n', 'f']
    | .nan => ['n', 'a', 'n']
  l.placeNumber x.signBit [] (withCapitals capitals body)

/-- The argument as the integer that a decimal place shows; a fraction is cut
    off. -/
def integerPart (letter : Char) (argument : Argument) : Except PlaceFault Int :=
  match argument, argument.integer? with
  | _, some n => .ok n
  | .number x, none =>
    match x.toRat? with
    | some q => .ok (Rounding.towardZero q)
    | none => .error .notFinite
  | other, none => .error (.notNumeric letter other.label)

/-- The argument as a double. -/
def real (argument : Argument) : Except PlaceFault Double :=
  match argument, argument.integer? with
  | .number x, _ => .ok x
  | _, some n =>
    let x := Double.ofRat n
    if x.isFinite then .ok x else .error .beyondDoubles
  | other, none => .error (.notReal other.label)

/-- The argument as a single character. -/
def character (argument : Argument) : Except PlaceFault Char :=
  match argument, argument.integer? with
  | _, some n =>
    if 0 ≤ n ∧ n < 0x110000 then .ok (Char.ofNat n.toNat) else .error .beyondCharacters
  | .text s, none =>
    match s.toList with
    | [c] => .ok c
    | _ => .error .notCharacter
  | _, none => .error .notCharacter

/-- A decimal with a fixed number of places. -/
def fixedForm (keepPoint : Bool) (places : Nat) (d : Decimal) : List Char :=
  let units := Rounding.halfEven (d.toRat * (10 : Rat) ^ places)
  Numeral.scaled places units.toNat ++ (if keepPoint && places == 0 then ['.'] else [])

/-- An argument in its place, written by a conversion. -/
def convert (l : Layout) (letter : Char) (conversion : Conversion) (argument : Argument) :
    Except PlaceFault (List Char) :=
  let whole (base : Nat) (mark : List Char) (capitals : Bool) : Except PlaceFault (List Char) :=
    match argument.integer? with
    | some n => .ok (l.placeInteger base mark capitals n)
    | none => .error (.notInteger letter argument.label)
  let inForm (form : Decimal → List Char) (capitals : Bool) : Except PlaceFault (List Char) :=
    (real argument).map (l.placeDouble form capitals)
  let digits := l.precision.getD 6
  match conversion with
  | .shown => .ok (l.placeText argument.shown.toList)
  | .quoted => .ok (l.placeText argument.quoted.toList)
  | .ascii => .ok (l.placeText (argument.quoted.toList.flatMap fun c =>
      if c.toNat < 0x80 then [c] else Text.codePoint c))
  | .character => (character argument).map fun c => l.pad [c]
  | .decimal => (integerPart letter argument).map (l.placeInteger 10 [] false)
  | .octal => whole 8 ['0', 'o'] false
  | .hexadecimal capitals => whole 16 ['0', 'x'] capitals
  | .fixed capitals => inForm (fixedForm l.marked digits) capitals
  | .exponent capitals => inForm (Numeral.exponentForm l.marked digits) capitals
  | .general capitals => inForm (Numeral.generalForm l.marked digits) capitals

/-- An argument in the place that a letter at an index ends. -/
def place (l : Layout) (letter : Char) (index : Nat) (argument : Argument) :
    Except PlaceFault (List Char) :=
  match Conversion.ofLetter? letter with
  | some conversion => l.convert letter conversion argument
  | none => .error (.unsupported letter index)

end Layout

end Reckoner
