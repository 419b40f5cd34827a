import Reckoner.Text.Blank
import Reckoner.Number.Numeral

/-!
# Integers in Text

How an integer is read from a setting or an option: blanks around it do not
count, one sign may come first, a single underscore may stand between two
digits, and the digits may be those of any script. The four separators from
U+001C to U+001F are blank in expressions but not here.

Reading has a limit of its own. A row of more than 4300 digits is refused as
soon as its end is found, whatever its value, and before anyone looks at what
comes after it.

## Main definitions

* `decimalZeros`: The zeros of the scripts that have decimal digits.
* `digitValue?`: The value of a decimal digit of any script.
* `IntegerFault`: Why a text is not read as an integer.
* `readInteger`: The integer that a text denotes.
-/

namespace Reckoner

namespace Text

/-- The code points of the digit zero in every script. The other nine digits
    follow each. -/
def decimalZeros : List Nat :=
  [
    0x30, 0x660, 0x6F0, 0x7C0, 0x966, 0x9E6, 0xA66, 0xAE6, 0xB66, 0xBE6, 0xC66, 0xCE6, 0xD66,
    0xDE6, 0xE50, 0xED0, 0xF20, 0x1040, 0x1090, 0x17E0, 0x1810, 0x1946, 0x19D0, 0x1A80, 0x1A90,
    0x1B50, 0x1BB0, 0x1C40, 0x1C50, 0xA620, 0xA8D0, 0xA900, 0xA9D0, 0xA9F0, 0xAA50, 0xABF0,
    0xFF10, 0x104A0, 0x10D30, 0x11066, 0x110F0, 0x11136, 0x111D0, 0x112F0, 0x11450, 0x114D0,
    0x11650, 0x116C0, 0x11730, 0x118E0, 0x11950, 0x11C50, 0x11D50, 0x11DA0, 0x16A60, 0x16AC0,
    0x16B50, 0x1D7CE, 0x1D7D8, 0x1D7E2, 0x1D7EC, 0x1D7F6, 0x1E140, 0x1E2F0, 0x1E950, 0x1FBF0
  ]

/-- The value of a decimal digit of any script. -/
def digitValue? (c : Char) : Option Nat :=
  (decimalZeros.find? fun start => start ≤ c.toNat && c.toNat ≤ start + 9).map (c.toNat - ·)

/-- Blank around an integer. -/
def isIntegerBlank (c : Char) : Bool :=
  isBlank c && !(0x1C ≤ c.toNat && c.toNat ≤ 0x1F)

/-- Why a text is not read as an integer. -/
inductive IntegerFault
  | malformed
  | tooLong (digits : Nat)
deriving DecidableEq, Repr

/-- The digit values of a nonempty row of digits in which single underscores
    may separate neighbours. -/
def digitRow? : List Char → Option (List Nat)
  | [] => none
  | [c] => (digitValue? c).map ([·])
  | c :: '_' :: rest => do
    let d ← digitValue? c
    let ds ← digitRow? rest
    pure (d :: ds)
  | c :: rest => do
    let d ← digitValue? c
    let ds ← digitRow? rest
    pure (d :: ds)

/-- Whether a character can be part of a row of digits. -/
def inRow (c : Char) : Bool := (digitValue? c).isSome || c == '_'

/-- The most digits that are read. -/
def digitLimit : Nat := 4300

/-- The integer that a text denotes. -/
def readInteger (s : String) : Except IntegerFault Int :=
  let trimmed := stripBy isIntegerBlank s.toList
  let (sign, rest) :=
    match trimmed with
    | '-' :: more => ((-1 : Int), more)
    | '+' :: more => (1, more)
    | other => (1, other)
  match digitRow? (rest.takeWhile inRow) with
  | none => .error .malformed
  | some ds =>
    if digitLimit < ds.length then .error (.tooLong ds.length)
    else if (rest.dropWhile inRow).isEmpty then
      .ok (sign * (ds.foldl (fun value d => 10 * value + d) 0 : Nat))
    else .error .malformed

end Text

end Reckoner
