import Reckoner.Number.Numeral

/-!
# Significant Digits

Numerals with a chosen number of significant digits, for messages that ask for
one. The exact decimal is rounded once, to the nearest with a half going to the
even neighbour, and only then written in one of two forms.

The exponent form has one digit before the point. The general form is positional
when the leading digit is at or after the fourth decimal place and before the
last significant one, and the exponent form otherwise; it drops the zeros at the
end and a point with nothing after it. Both forms can be asked to keep the point
in any case, and then the general form keeps its zeros too.

## Main definitions

* `Decimal.toDigits`: A decimal rounded to a number of digits.
* `Decimal.significant`: Its digits, and where the first one stands.
* `Numeral.exponentForm`, `Numeral.generalForm`: The two forms.
-/

namespace Reckoner

namespace Decimal

/-- The decimal with exactly `count` digits nearest to a positive one. A
    coefficient that rounds up to a power of ten moves to the next exponent. -/
def toDigits (d : Decimal) (count : Nat) : Decimal :=
  let size := d.digits.length
  if size ≤ count then
    ⟨d.coefficient * Nat.pow 10 (count - size), d.exponent - ((count - size : Nat) : Int)⟩
  else
    let dropped := size - count
    let rounded := (Rounding.halfEven ((d.coefficient : Rat) / (10 : Rat) ^ dropped)).toNat
    if rounded = Nat.pow 10 count then ⟨rounded / 10, d.exponent + dropped + 1⟩
    else ⟨rounded, d.exponent + dropped⟩

/-- The first `count` digits of a decimal after rounding, and the exponent of
    ten of the first of them. -/
def significant (d : Decimal) (count : Nat) : List Char × Int :=
  if d.coefficient = 0 then (List.replicate count '0', 0)
  else
    let rounded := d.toDigits count
    (rounded.digits, (count : Int) + rounded.exponent - 1)

end Decimal

namespace Numeral

/-- A whole part and a fraction with a point between them. Without a fraction
    there is no point unless it is to be kept. -/
def pointed (keepPoint : Bool) (whole fraction : List Char) : List Char :=
  if fraction.isEmpty && !keepPoint then whole else whole ++ '.' :: fraction

/-- Digits without the zeros at their end. -/
def dropZeros (ds : List Char) : List Char := (ds.reverse.dropWhile (· == '0')).reverse

/-- Digits with the point after the first, and an exponent of ten. -/
def exponential (keepPoint : Bool) (ds : List Char) (exponent : Int) : List Char :=
  let sign := if exponent < 0 then '-' else '+'
  pointed keepPoint (ds.take 1) (ds.drop 1) ++ 'e' :: sign :: padded 2 exponent.natAbs

/-- The exponent form with a number of decimal places. -/
def exponentForm (keepPoint : Bool) (places : Nat) (d : Decimal) : List Char :=
  let (ds, exponent) := d.significant (places + 1)
  exponential keepPoint ds exponent

/-- The general form with a number of significant digits. -/
def generalForm (keepPoint : Bool) (count : Nat) (d : Decimal) : List Char :=
  let count := max 1 count
  let (ds, exponent) := d.significant count
  let shorten (digits : List Char) : List Char := if keepPoint then digits else dropZeros digits
  if exponent < -4 ∨ (count : Int) ≤ exponent then
    exponential keepPoint (ds.take 1 ++ shorten (ds.drop 1)) exponent
  else if exponent < 0 then
    pointed keepPoint ['0'] (shorten (List.replicate (-exponent - 1).toNat '0' ++ ds))
  else
    pointed keepPoint (ds.take (exponent + 1).toNat) (shorten (ds.drop (exponent + 1).toNat))

end Numeral

end Reckoner
