import Reckoner.Number.Rounding

/-!
# Square Roots

The square root of a rational, rounded once. A root is almost never rational,
but which integer is nearest to it can be decided without leaving the
rationals: the integer square root leaves two candidates, and comparing the
radicand with the square of the point halfway between them chooses. That same
comparison sees a tie, which happens exactly when the radicand is such a square.

Rounding to a number of bits scales the radicand by a power of four first, which
scales the root by the same power of two.

The root of an integer without a square factor cannot be simplified, and it is
not rounded once but twice. It is cut off after some more bits first, and what is
left of it is rounded.

## Main definitions

* `nearestRoot`: The integer nearest to a square root, ties to even.
* `rootToBits`: The number with `bits` significant bits nearest to a square root.
* `rootBelow`: The largest number with `bits` significant bits that is not above
  a square root.
* `root`: The square root as it is computed.
-/

namespace Reckoner

namespace Elementary

/-- The integer nearest to the square root of a nonnegative rational; of two
    equally near ones, the even one. -/
def nearestRoot (q : Rat) : Nat :=
  let low := Nat.sqrt q.floor.toNat
  let middle : Rat := (low : Rat) + 1 / 2
  if q < middle * middle then low
  else if middle * middle < q then low + 1
  else if low % 2 = 0 then low
  else low + 1

/-- The number with `bits` significant bits nearest to the square root of a
    nonnegative rational, ties to even. -/
def rootToBits (bits : Nat) (q : Rat) : Rat :=
  if q = 0 then 0
  else
    let e := Rounding.binaryOrder q / 2 - (bits : Int) + 1
    (nearestRoot (q / (4 : Rat) ^ e) : Rat) * (2 : Rat) ^ e

/-- The largest number with `bits` significant bits that is not above the square root
    of a nonnegative rational. -/
def rootBelow (bits : Nat) (q : Rat) : Rat :=
  if q = 0 then 0
  else
    let e := Rounding.binaryOrder q / 2 - (bits : Int) + 1
    (Nat.sqrt (q / (4 : Rat) ^ e).floor.toNat : Rat) * (2 : Rat) ^ e

/-- The largest factor whose square is looked for in a radicand. -/
def factorLimit : Nat := 32768

/-- Whether a rational is an integer in which no square factor is found. -/
def isSquareFree (q : Rat) : Bool :=
  q.den == 1 && (List.range (min (Nat.sqrt q.num.toNat) factorLimit + 1)).all fun d =>
    d < 2 || q.num.toNat % (d * d) != 0

/-- The number of bits that are kept for a moment, before a root is rounded. -/
def guardBits : Nat := 4

/-- The square root of a nonnegative rational, rounded to `bits` bits. That of an integer
    without a square factor is cut off before. -/
def root (bits : Nat) (q : Rat) : Rat :=
  if isSquareFree q then Rounding.toBits bits (rootBelow (bits + guardBits) q)
  else rootToBits bits q

end Elementary

end Reckoner
