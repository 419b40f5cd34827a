import Reckoner.Number.Double

/-!
# Decimals and the Shortest of Them

A decimal is a coefficient and a power of ten. Every finite double is one
exactly, since a power of two divides a power of ten, but with up to 767 digits
that is not how anybody wants to read it. What is shown instead is the shortest
decimal that reads back as the same double.

The search is a plain one. The exact decimal has two neighbours on each coarser
decimal grid, its truncation and the next one up. Starting from one digit and
adding one at a time, the first grid with a neighbour that is accepted settles
the number of digits, and the nearer neighbour wins if both are. A search that
comes to its end returns the exact decimal, which always reads back, so no
bound on the number of digits is built in.

The search takes its test as a parameter. Nothing in it depends on what a double
is, only on the answer to "does this one read back?".

## Main definitions

* `Decimal`: A coefficient times a power of ten.
* `Decimal.ofBinary`: The decimal equal to a coefficient times a power of two.
* `Decimal.pick`: The acceptable neighbour after dropping some digits.
* `Decimal.shortest`: The acceptable decimal with the fewest digits.
* `Double.decimal?`: The shortest decimal of a finite double, without its sign.
* `Double.seen?`: The rational that the shortest decimal spells.

## Theorems

* `shortest_accepted`: The shortest decimal is acceptable if the exact one is.
-/

namespace Reckoner

/-- A coefficient times a power of ten. -/
structure Decimal where
  coefficient : Nat
  exponent : Int
deriving DecidableEq, Repr

namespace Decimal

/-- The value of a decimal. -/
def toRat (d : Decimal) : Rat := (d.coefficient : Rat) * (10 : Rat) ^ d.exponent

/-- The decimal digits of the coefficient, most significant first. -/
def digits (d : Decimal) : List Char := Nat.toDigits 10 d.coefficient

/-- The decimal equal to `m * 2 ^ e`. A negative power of two is a power of
    five over a power of ten. -/
def ofBinary (m : Nat) (e : Int) : Decimal :=
  if 0 ≤ e then ⟨m * Nat.pow 2 e.toNat, 0⟩ else ⟨m * Nat.pow 5 (-e).toNat, e⟩

/-- The decimal without its last `k` digits. -/
def truncate (d : Decimal) (k : Nat) : Decimal :=
  ⟨d.coefficient / Nat.pow 10 k, d.exponent + k⟩

/-- The next decimal with the same exponent. -/
def next (d : Decimal) : Decimal := ⟨d.coefficient + 1, d.exponent⟩

/-- Of the two neighbours of `d` with `k` digits fewer, the acceptable one; if
    both are, the nearer, and at equal distance the one with an even last
    digit. -/
def pick (accepts : Decimal → Bool) (d : Decimal) (k : Nat) : Option Decimal :=
  let below := d.truncate k
  let above := below.next
  if accepts below then
    if accepts above then
      let rest := 2 * (d.coefficient % Nat.pow 10 k)
      if rest < Nat.pow 10 k ∨ rest = Nat.pow 10 k ∧ below.coefficient % 2 = 0 then some below
      else some above
    else some below
  else if accepts above then some above
  else none

/-- The acceptable neighbour after dropping `k` digits, or fewer if there is
    none; `d` itself if there is none at all. -/
def shortestFrom (accepts : Decimal → Bool) (d : Decimal) : Nat → Decimal
  | 0 => d
  | k + 1 => (pick accepts d (k + 1)).getD (shortestFrom accepts d k)

/-- The acceptable decimal with the fewest digits near `d`. -/
def shortest (accepts : Decimal → Bool) (d : Decimal) : Decimal :=
  shortestFrom accepts d (d.digits.length - 1)

/-- Drop the zeros at the end of the coefficient, at most `fuel` of them. -/
def trimFrom (d : Decimal) : Nat → Decimal
  | 0 => d
  | fuel + 1 =>
    if d.coefficient % 10 = 0 then trimFrom (d.truncate 1) fuel else d

/-- The same value with no zeros at the end of the coefficient. -/
def trim (d : Decimal) : Decimal := trimFrom d (d.digits.length - 1)

theorem pick_accepted {accepts : Decimal → Bool} {d r : Decimal} {k : Nat}
    (h : pick accepts d k = some r) : accepts r = true := by
  simp only [pick] at h
  split at h
  · split at h
    · split at h <;> (cases h; assumption)
    · cases h
      assumption
  · split at h
    · cases h
      assumption
    · cases h

theorem shortestFrom_accepted {accepts : Decimal → Bool} {d : Decimal}
    (hd : accepts d = true) (k : Nat) : accepts (shortestFrom accepts d k) = true := by
  induction k with
  | zero => exact hd
  | succ k ih =>
      simp only [shortestFrom]
      cases hp : pick accepts d (k + 1) with
      | none => exact ih
      | some r => exact pick_accepted hp

theorem shortest_accepted {accepts : Decimal → Bool} {d : Decimal}
    (hd : accepts d = true) : accepts (shortest accepts d) = true :=
  shortestFrom_accepted hd _

end Decimal

namespace Double

/-- The nearest double to a decimal, with the given sign. -/
def ofDecimal (negative : Bool) (d : Decimal) : Double := ofMagnitude negative d.toRat

/-- The decimal with the fewest digits that reads back as the given number,
    its sign aside. -/
def decimal? (x : Double) : Option Decimal :=
  match x with
  | .finite _ m e _ =>
    some (Decimal.shortest (fun d => ofDecimal false d = x.abs) (Decimal.ofBinary m e)).trim
  | .infinite _ => none
  | .nan => none

/-- The exact value of the text a finite number is shown as. -/
def seen? (x : Double) : Option Rat :=
  x.decimal?.map fun d => signed x.signBit d.toRat

end Double

end Reckoner
