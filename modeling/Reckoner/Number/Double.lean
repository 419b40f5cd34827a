import Reckoner.Number.Rounding

/-!
# Double Precision Numbers

The numbers the calculator computes with: binary floating point with 53
significant bits and exponents from -1074 to 971. A finite number is a sign, a
significand and an exponent, and the invariant `Canonical` makes that
representation unique, so equality of doubles is equality of the data. The two
zeros stay apart, as they must: they print alike in most places, but not in all.

There is one way into the type from exact arithmetic. `ofMagnitude` rounds a
nonnegative rational once, to nearest with ties to even, and turns anything past
the largest finite number into an infinity. `ofRat` adds the sign. Everything
inexact elsewhere (sums, products, literals, roots, logarithms) goes through
this door after an exact computation over the rationals.

## Main definitions

* `Double`: A finite number in canonical form, an infinity, or the indefinite
  value.
* `Double.toRat?`: The exact value of a finite number.
* `Double.ofRat`: The nearest double to a rational.
* `Double.isZero`, `Double.isNegative`: Comparisons with zero, both zeros counting
  as zero.
* `Double.integer?`: The integer a double equals, if there is one.

## Theorems

* `neg_neg`: Flipping the sign twice changes nothing.
* `toRat_neg`: The exact value follows the sign.
-/

namespace Reckoner

/-- The significand and exponent of a finite double in their only form: 53 bits
    at most, fewer only at the smallest exponent. -/
def Canonical (significand : Nat) (exponent : Int) : Prop :=
  significand < Nat.pow 2 53 ∧ -1074 ≤ exponent ∧ exponent ≤ 971 ∧
    (Nat.pow 2 52 ≤ significand ∨ exponent = -1074)

instance (significand : Nat) (exponent : Int) : Decidable (Canonical significand exponent) := by
  unfold Canonical
  infer_instance

/-- A number in double precision. -/
inductive Double
  | finite (negative : Bool) (significand : Nat) (exponent : Int)
      (canonical : Canonical significand exponent)
  | infinite (negative : Bool)
  | nan
deriving DecidableEq

namespace Double

/-- The zero without a sign. -/
def zero : Double := .finite false 0 (-1074) (by decide)

/-- The zero that carries a minus sign. -/
def negativeZero : Double := .finite true 0 (-1074) (by decide)

instance : Inhabited Double := ⟨zero⟩

/-- The distance from zero of a finite number. -/
def magnitude (significand : Nat) (exponent : Int) : Rat :=
  (significand : Rat) * (2 : Rat) ^ exponent

/-- A magnitude with a sign put on it. -/
def signed (negative : Bool) (q : Rat) : Rat := if negative then -q else q

/-- The exact value of a finite number; the others have none. -/
def toRat? : Double → Option Rat
  | .finite s m e _ => some (signed s (magnitude m e))
  | .infinite _ => none
  | .nan => none

/-- The nearest double to a nonnegative rational, with the given sign. A
    significand that rounds up to a power of two moves to the next exponent;
    an exponent past the largest becomes an infinity. -/
def ofMagnitude (negative : Bool) (q : Rat) : Double :=
  let e := Rounding.quantum 53 (some (-1074)) q
  let m := (Rounding.halfEven (q / (2 : Rat) ^ e)).toNat
  if h : Canonical m e then .finite negative m e h
  else if h : Canonical (m / 2) (e + 1) then .finite negative (m / 2) (e + 1) h
  else .infinite negative

/-- The nearest double to a rational. Zero is positive, but a negative rational
    keeps its sign even when it rounds to zero. -/
def ofRat (q : Rat) : Double := ofMagnitude (decide (q < 0)) q.abs

/-- The same number with the other sign. -/
protected def neg : Double → Double
  | .finite s m e h => .finite (!s) m e h
  | .infinite s => .infinite (!s)
  | .nan => .nan

instance : Neg Double := ⟨Double.neg⟩

/-- The number without its sign. -/
def abs : Double → Double
  | .finite _ m e h => .finite false m e h
  | .infinite _ => .infinite false
  | .nan => .nan

/-- Whether the number carries a minus sign, on a zero as well. -/
def signBit : Double → Bool
  | .finite s .. => s
  | .infinite s => s
  | .nan => false

/-- Neither an infinity nor the indefinite value. -/
def isFinite : Double → Bool
  | .finite .. => true
  | _ => false

/-- Either of the two zeros. -/
def isZero : Double → Bool
  | .finite _ m _ _ => m == 0
  | _ => false

/-- Less than zero. -/
def isNegative : Double → Bool
  | .finite s m _ _ => s && m != 0
  | .infinite s => s
  | .nan => false

/-- The integer that a finite number equals. -/
def integer? (x : Double) : Option Int :=
  match x.toRat? with
  | some q => if q.den = 1 then some q.num else none
  | none => none

/-- The number itself, with either zero replaced by the one without a sign. -/
def unsignedZero (x : Double) : Double := if x.isZero then zero else x

theorem neg_neg (x : Double) : - -x = x := by
  cases x <;> simp only [Neg.neg, Double.neg, Bool.not_not]

theorem toRat_neg (x : Double) : (-x).toRat? = x.toRat?.map (fun q => -q) := by
  cases x with
  | finite s m e h =>
      cases s with
      | false => rfl
      | true => exact congrArg some (Rat.neg_neg (magnitude m e)).symm
  | infinite s => rfl
  | nan => rfl

end Double

end Reckoner
