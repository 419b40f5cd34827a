/-!
# Rounding to Nearest

Every inexact step of the calculator is one of two questions: which integer is
nearest to a rational, or which number with a fixed count of significant bits
is. Both are answered here, over exact rationals, so that no result is ever
rounded twice by accident. Ties go to the even neighbour in both.

The second question reduces to the first. `binaryOrder` finds the power of two
at or below a positive rational, `quantum` turns that into the unit of the last
kept bit, and `toBits` rounds in multiples of that unit. The least quantum is a
parameter, because a format with subnormal numbers stops shrinking its unit and
a working precision does not.

## Main definitions

* `halfEven`: The nearest integer, ties to even.
* `towardZero`: The integer part.
* `binaryOrder`: The exponent of the largest power of two at most `q`.
* `quantum`: The exponent of the unit that a rounding to `bits` bits keeps.
* `toBits`: The nearest rational with `bits` significant bits.

## Theorems

* `halfEven_intCast`: An integer is its own nearest integer.
* `toBits_zero`: Zero is never moved.
-/

namespace Reckoner

namespace Rounding

/-- The integer nearest to `q`; of two equally near ones, the even one. -/
def halfEven (q : Rat) : Int :=
  let low := q.floor
  let rest := q - low
  if rest < 1 / 2 then low
  else if 1 / 2 < rest then low + 1
  else if low % 2 = 0 then low
  else low + 1

/-- The integer part of a rational, cut off towards zero. -/
def towardZero (q : Rat) : Int := if q < 0 then q.ceil else q.floor

/-- The `k` with `2 ^ k ≤ q < 2 ^ (k + 1)`, for positive `q`. The bit lengths
    of numerator and denominator leave two candidates, and one comparison
    decides. -/
def binaryOrder (q : Rat) : Int :=
  let k : Int := (q.num.natAbs.log2 : Int) - (q.den.log2 : Int)
  if (2 : Rat) ^ k ≤ q then k else k - 1

/-- The exponent of the unit in which a number of the size of `q` is counted
    when `bits` bits are kept, never below `least` if that is given. -/
def quantum (bits : Nat) (least : Option Int) (q : Rat) : Int :=
  let free := binaryOrder q - (bits : Int) + 1
  match least with
  | none => free
  | some bound => if q = 0 ∨ free < bound then bound else free

/-- The nearest rational with `bits` significant bits, ties to even, with no
    bound on the exponent. -/
def toBits (bits : Nat) (q : Rat) : Rat :=
  if q = 0 then 0
  else
    let unit := (2 : Rat) ^ quantum bits none q.abs
    (halfEven (q / unit) : Rat) * unit

theorem halfEven_intCast (n : Int) : halfEven (n : Rat) = n := by
  have hrest : ((n : Rat) - (n : Rat)) < 1 / 2 := by grind
  simp only [halfEven, Rat.floor_intCast, hrest, if_true]

theorem toBits_zero (bits : Nat) : toBits bits 0 = 0 := by
  simp only [toBits, if_true]

end Rounding

end Reckoner
