import Reckoner.Elementary.Enclosure

/-!
# Trigonometry in Degrees

Sine, cosine and tangent of a rational number of degrees, rounded once. Degrees
make the reduction exact: the remainder modulo a full turn is a rational, however
large the angle, and folding it into the first quadrant costs nothing. Only then
does the circle constant enter, to turn an acute angle into radians for a series.

Because everything depends on the folded angle alone, periodicity and symmetry
hold for the rounded values as they do for the real ones. The angles whose
values are rational (multiples of 30 for the sine, of 45 for the tangent) are
answered from a table of four, so an exact half is a half.

The cosine is the sine a quarter turn ahead. The tangent of an angle above 45
degrees is the reciprocal of the tangent of its complement, which keeps the
precision near the poles.

## Main definitions

* `Folded`: An acute angle with a sign, standing for any angle.
* `foldTurn`, `foldHalfTurn`: Reduction for the sine and for the tangent.
* `sineDegrees`, `cosineDegrees`: Sine and cosine, rounded to a number of bits.
* `tangentDegrees?`: The tangent, where it is defined.
-/

namespace Reckoner

namespace Elementary

/-- The remainder of an angle after whole multiples of `period`. -/
def angleMod (angle period : Rat) : Rat := angle - period * (angle / period).floor

/-- An angle between 0 and 90 degrees, and the sign of the function there. -/
structure Folded where
  negative : Bool
  acute : Rat
deriving DecidableEq

/-- The acute angle with the same sine, up to the sign. -/
def foldTurn (angle : Rat) : Folded :=
  let r := angleMod angle 360
  if r ≤ 90 then ⟨false, r⟩
  else if r ≤ 180 then ⟨false, 180 - r⟩
  else if r ≤ 270 then ⟨true, r - 180⟩
  else ⟨true, 360 - r⟩

/-- The acute angle with the same tangent, up to the sign. -/
def foldHalfTurn (angle : Rat) : Folded :=
  let r := angleMod angle 180
  if r ≤ 90 then ⟨false, r⟩ else ⟨true, 180 - r⟩

/-- Enclosure of the arc tangent of `1 / n`. -/
def arcTangentEnclosure (precision n : Nat) : Enclosure :=
  let t := Enclosure.exact (1 / ((n : Rat) * n))
  let series :=
    Enclosure.nested precision (fun k => 1 / (2 * k + 1)) (fun _ => -1) t ⟨0, 1⟩
      (precision / 4 + 8) 0
  Enclosure.scale (1 / (n : Rat)) series

/-- Enclosure of the circle constant, sixteen arc tangents of 1/5 less four of
    1/239. -/
def piEnclosure (precision : Nat) : Enclosure :=
  Enclosure.add (Enclosure.scale 16 (arcTangentEnclosure precision 5))
    (Enclosure.scale (-4) (arcTangentEnclosure precision 239))

/-- Enclosure of a nonnegative number of degrees in radians. -/
def radiansEnclosure (precision : Nat) (degrees : Rat) : Enclosure :=
  Enclosure.scale (degrees / 180) (piEnclosure precision)

/-- Enclosure of the sine of an angle between 0 and 45 degrees. -/
def smallSineEnclosure (precision : Nat) (degrees : Rat) : Enclosure :=
  let x := radiansEnclosure precision degrees
  let t := Enclosure.outward precision (Enclosure.mul x x)
  let series :=
    Enclosure.nested precision (fun _ => 1) (fun k => -1 / ((2 * k + 2) * (2 * k + 3))) t ⟨0, 1⟩
      (precision / 4 + 8) 0
  Enclosure.mul x series

/-- Enclosure of the cosine of an angle between 0 and 45 degrees. -/
def smallCosineEnclosure (precision : Nat) (degrees : Rat) : Enclosure :=
  let x := radiansEnclosure precision degrees
  let t := Enclosure.outward precision (Enclosure.mul x x)
  Enclosure.nested precision (fun _ => 1) (fun k => -1 / ((2 * k + 1) * (2 * k + 2))) t ⟨0, 1⟩
    (precision / 4 + 8) 0

/-- Enclosure of the sine of an acute angle, which is at most one. -/
def acuteSineEnclosure (precision : Nat) (degrees : Rat) : Enclosure :=
  Enclosure.atMost 1
    (if degrees ≤ 45 then smallSineEnclosure precision degrees
      else smallCosineEnclosure precision (90 - degrees))

/-- Enclosure of the tangent of an angle between 0 and 45 degrees. -/
def smallTangentEnclosure (precision : Nat) (degrees : Rat) : Enclosure :=
  Enclosure.div (smallSineEnclosure precision degrees) (smallCosineEnclosure precision degrees)

/-- Enclosure of the tangent of an angle between 0 and 90 degrees. -/
def acuteTangentEnclosure (precision : Nat) (degrees : Rat) : Enclosure :=
  if degrees ≤ 45 then smallTangentEnclosure precision degrees
  else Enclosure.inverse (smallTangentEnclosure precision (90 - degrees))

/-- The sine of an acute angle, rounded to `bits` bits. -/
def acuteSine (bits : Nat) (degrees : Rat) : Rat :=
  if degrees = 0 then 0
  else if degrees = 30 then 1 / 2
  else if degrees = 90 then 1
  else Enclosure.round bits fun precision => acuteSineEnclosure precision degrees

/-- The tangent of an acute angle other than 90 degrees, rounded to `bits` bits. -/
def acuteTangent (bits : Nat) (degrees : Rat) : Rat :=
  if degrees = 0 then 0
  else if degrees = 45 then 1
  else Enclosure.round bits fun precision => acuteTangentEnclosure precision degrees

/-- Put the sign of a folded angle on a value. -/
def Folded.apply (f : Folded) (value : Rat → Rat) : Rat :=
  if f.negative then -value f.acute else value f.acute

/-- The sine of an angle in degrees, rounded to `bits` bits. -/
def sineDegrees (bits : Nat) (angle : Rat) : Rat := (foldTurn angle).apply (acuteSine bits)

/-- The cosine of an angle in degrees, rounded to `bits` bits. -/
def cosineDegrees (bits : Nat) (angle : Rat) : Rat := sineDegrees bits (angle + 90)

/-- The tangent of an angle in degrees, rounded to `bits` bits. Odd multiples of
    90 degrees have none. -/
def tangentDegrees? (bits : Nat) (angle : Rat) : Option Rat :=
  let f := foldHalfTurn angle
  if f.acute = 90 then none else some (f.apply (acuteTangent bits))

end Elementary

end Reckoner
