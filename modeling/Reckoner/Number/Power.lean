import Reckoner.Number.Arithmetic

/-!
# Powers of Doubles

Raising a double to a double. The power itself is taken from the machine's
floating point unit, through the interchange encoding of both operands. What
the machine does not decide is settled here: which powers fail, and how. Three
of them do. Zero has no negative finite power, a negative number has no real
power whose exponent is not an integer, and finite operands may overflow.

A negative base with a non-integral exponent has a complex power, and it is
only called non-real if that complex number can be represented. Its distance
from zero is the power of the base's magnitude, so an overflow there is
reported as an overflow.

## Main definitions

* `Double.toBits`, `Double.ofBits`: The interchange encoding in 64 bits.
* `PowerFailure`: Why a power has no value.
* `Double.power`: The power, or the reason there is none.
-/

namespace Reckoner

namespace Double

/-- The interchange encoding: sign, biased exponent, fraction. -/
def toBits : Double → UInt64
  | .finite s m e _ =>
    let exponentField : Nat := if m < Nat.pow 2 52 then 0 else (e + 1075).toNat
    let fraction : Nat := if m < Nat.pow 2 52 then m else m - Nat.pow 2 52
    UInt64.ofNat ((if s then Nat.pow 2 63 else 0) + exponentField * Nat.pow 2 52 + fraction)
  | .infinite s => UInt64.ofNat ((if s then Nat.pow 2 63 else 0) + 2047 * Nat.pow 2 52)
  | .nan => UInt64.ofNat (4095 * Nat.pow 2 51)

/-- The number with the given interchange encoding. -/
def ofBits (bits : UInt64) : Double :=
  let n : Nat := bits.toNat
  let sign : Bool := decide (Nat.pow 2 63 ≤ n)
  let exponentField : Nat := n / Nat.pow 2 52 % Nat.pow 2 11
  let fraction := n % Nat.pow 2 52
  if exponentField = 2047 then
    if fraction = 0 then .infinite sign else .nan
  else if exponentField = 0 then ofMagnitude sign (magnitude fraction (-1074))
  else ofMagnitude sign (magnitude (Nat.pow 2 52 + fraction) ((exponentField : Int) - 1075))

/-- The power as the machine computes it. -/
def machinePower (x y : Double) : Double :=
  ofBits (Float.pow (Float.ofBits x.toBits) (Float.ofBits y.toBits)).toBits

/-- Why a power has no value among the doubles. -/
inductive PowerFailure
  | zeroToNegative
  | overflow
  | notReal
deriving DecidableEq

/-- The power `x ^ y`. Operands that are not finite give whatever the machine
    gives; finite ones either give a finite power or fail. -/
def power (x y : Double) : Except PowerFailure Double :=
  if !(x.isFinite && y.isFinite) then .ok (machinePower x y)
  else if x.isZero && y.isNegative then .error .zeroToNegative
  else if x.isNegative && y.integer?.isNone then
    if (machinePower x.abs y).isFinite then .error .notReal else .error .overflow
  else
    let result := machinePower x y
    if result.isFinite then .ok result else .error .overflow

end Double

end Reckoner
