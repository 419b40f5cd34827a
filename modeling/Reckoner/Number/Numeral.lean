import Reckoner.Number.Decimal

/-!
# Numerals

How doubles are written and read. There are three ways of writing one.

`text` is the exact one: the shortest decimal that reads back, positional while
the leading digit stands between the fourth decimal place and the sixteenth
place before the point, and in exponent form outside that range. A positional
numeral always has a point, and an exponent has a sign and two digits at least.

`compact` is what steps show: an integral value below `10 ^ 16` is written as an
integer, either zero is `0`, and anything else is `text`.

`fixed` has a given number of decimal places. It rounds the exact binary value,
not the shortest decimal, and a half goes to the even neighbour. A negative
value that rounds to zero keeps its sign; a zero never has one.

Reading is the other direction and rounds once. `ofText?` reads whatever `text`
writes, and `ofParts` is the numeral of an expression, digits with an optional
fraction.

## Main definitions

* `Double.text`: The shortest numeral that reads back.
* `Double.compact`: The numeral shown in steps.
* `Double.fixed`: The numeral with a fixed number of decimal places.
* `Double.ofParts`: The double nearest to a plain decimal numeral.
* `Double.ofText?`: The double that a numeral with optional exponent denotes.
-/

namespace Reckoner

namespace Numeral

/-- The digits of a natural number. -/
def ofNat (n : Nat) : List Char := Nat.toDigits 10 n

/-- The digits of a natural number after as many zeros as bring it to `width`. -/
def padded (width n : Nat) : List Char :=
  let ds := ofNat n
  List.replicate (width - ds.length) '0' ++ ds

/-- An integer, with a minus sign if it is negative. -/
def ofInt (n : Int) : List Char :=
  if n < 0 then '-' :: ofNat n.natAbs else ofNat n.natAbs

/-- A numeral whose point comes after `point` of the digits `ds`, with zeros
    where there are no digits, and one digit at least on either side. -/
def positional (ds : List Char) (point : Int) : List Char :=
  if point ≤ 0 then
    '0' :: '.' :: (List.replicate (-point).toNat '0' ++ ds)
  else if (ds.length : Int) ≤ point then
    ds ++ List.replicate (point - ds.length).toNat '0' ++ ['.', '0']
  else
    ds.take point.toNat ++ '.' :: ds.drop point.toNat

/-- A numeral with one digit before the point and an exponent of ten. -/
def scientific (ds : List Char) (exponent : Int) : List Char :=
  let mantissa :=
    match ds with
    | d :: e :: rest => d :: '.' :: e :: rest
    | short => short
  let sign := if exponent < 0 then '-' else '+'
  mantissa ++ 'e' :: sign :: padded 2 exponent.natAbs

/-- A decimal in positional form if its leading digit is near the point, in
    exponent form if not. -/
def ofDecimal (d : Decimal) : List Char :=
  let ds := d.digits
  let leading := (ds.length : Int) + d.exponent - 1
  if d.coefficient = 0 then ['0', '.', '0']
  else if -4 ≤ leading ∧ leading < 16 then positional ds (leading + 1)
  else scientific ds leading

/-- A natural number of units of `10 ^ -places`, written with that many decimal
    places. -/
def scaled (places units : Nat) : List Char :=
  if places = 0 then ofNat units
  else
    ofNat (units / Nat.pow 10 places) ++ '.' :: padded places (units % Nat.pow 10 places)

/-- The number of digits that a nonnegative number has before its point, none if it is
    below one. -/
def wholeDigits (q : Rat) : Nat := if q < 1 then 0 else (ofNat q.floor.toNat).length

end Numeral

namespace Double

/-- Put a minus sign in front of a numeral if asked to. -/
def withSign (negative : Bool) (cs : List Char) : String :=
  String.ofList (if negative then '-' :: cs else cs)

/-- The shortest numeral that reads back as the same double. -/
def text (x : Double) : String :=
  match x with
  | .nan => "nan"
  | .infinite s => withSign s ['i', 'n', 'f']
  | .finite s _ _ _ => withSign s ((x.decimal?.map Numeral.ofDecimal).getD [])

/-- The numeral of a value in a step: integers below `10 ^ 16` without a point. -/
def compact (x : Double) : String :=
  if x.isZero then "0"
  else
    match x.integer? with
    | some n => if n.natAbs < Nat.pow 10 16 then String.ofList (Numeral.ofInt n) else x.text
    | none => x.text

/-- The numeral with the given number of decimal places, rounded from the exact
    value with a half going to the even neighbour. -/
def fixed (x : Double) (places : Nat) : String :=
  match x with
  | .nan => "nan"
  | .infinite s => withSign s ['i', 'n', 'f']
  | .finite s m e _ =>
    let units := Rounding.halfEven (magnitude m e * (10 : Rat) ^ places)
    withSign (s && m != 0) (Numeral.scaled places units.toNat)

/-- The nearest double to the numeral with these digits before and after the
    point. -/
def ofParts (whole fraction : List Char) : Double :=
  ofDecimal false ⟨Nat.ofDigitChars 10 (whole ++ fraction) 0, -(fraction.length : Int)⟩

/-- The digits at the front of a text, and the rest. -/
def spanDigits (cs : List Char) : List Char × List Char := cs.span Char.isDigit

/-- The double that an unsigned numeral with optional fraction and exponent
    denotes. -/
def ofUnsignedChars? (cs : List Char) : Option (Bool → Double) :=
  let (whole, rest) := spanDigits cs
  let (fraction, rest) :=
    match rest with
    | '.' :: more => spanDigits more
    | other => ([], other)
  let value (exponent : Int) (negative : Bool) : Double :=
    ofDecimal negative
      ⟨Nat.ofDigitChars 10 (whole ++ fraction) 0, exponent - (fraction.length : Int)⟩
  let scale (sign : Int) (ds : List Char) : Option (Bool → Double) :=
    if ds.isEmpty || !ds.all Char.isDigit then none
    else some (value (sign * (Nat.ofDigitChars 10 ds 0 : Int)))
  if whole.isEmpty then none
  else
    match rest with
    | [] => some (value 0)
    | 'e' :: '-' :: ds => scale (-1) ds
    | 'e' :: '+' :: ds => scale 1 ds
    | 'e' :: ds => scale 1 ds
    | _ => none

/-- The double that a numeral denotes, if the text is one. -/
def ofText? (s : String) : Option Double :=
  let (negative, cs) :=
    match s.toList with
    | '-' :: rest => (true, rest)
    | all => (false, all)
  if cs = ['n', 'a', 'n'] then some .nan
  else if cs = ['i', 'n', 'f'] then some (.infinite negative)
  else (ofUnsignedChars? cs).map fun value => value negative

end Double

end Reckoner
