import Reckoner.Number.Rounding

/-!
# Enclosures

Logarithms and trigonometric functions have no exact rational value at most
arguments, so they are enclosed between two rationals instead. Rounding to a
fixed number of bits then needs no error analysis at run time: if both ends of
the enclosure round to the same number, so does everything between them, and if
they do not, a tighter enclosure is asked for.

Series are summed in nested form, from the innermost term outwards, starting
with a crude enclosure of the tail. Each step is rounded outwards to a grid, to
keep the rationals small; that loses a little width and never the enclosed
value.

A function that is never halfway between two neighbouring numbers leaves the
loop after finitely many steps. The values where that could fail are rational,
and the callers answer them without an enclosure.

## Main definitions

* `Enclosure`: Two rationals with a value between them.
* `Enclosure.outward`: Rounding away from the middle, to a binary grid.
* `Enclosure.nested`: A power series in nested form.
* `Enclosure.settle`: Refining an enclosure until both ends round alike.
-/

namespace Reckoner

/-- A value between two rationals. -/
structure Enclosure where
  low : Rat
  high : Rat
deriving DecidableEq

namespace Enclosure

/-- The enclosure of a rational by itself. -/
def exact (q : Rat) : Enclosure := ⟨q, q⟩

/-- The largest multiple of `2 ^ -bits` that is at most `q`. -/
def gridBelow (bits : Nat) (q : Rat) : Rat :=
  ((q * (2 : Rat) ^ bits).floor : Rat) / (2 : Rat) ^ bits

/-- The smallest multiple of `2 ^ -bits` that is at least `q`. -/
def gridAbove (bits : Nat) (q : Rat) : Rat :=
  ((q * (2 : Rat) ^ bits).ceil : Rat) / (2 : Rat) ^ bits

/-- A wider enclosure with both ends on the grid of multiples of `2 ^ -bits`. -/
def outward (bits : Nat) (x : Enclosure) : Enclosure :=
  ⟨gridBelow bits x.low, gridAbove bits x.high⟩

/-- Sums of enclosed values. -/
def add (x y : Enclosure) : Enclosure := ⟨x.low + y.low, x.high + y.high⟩

/-- Multiples of an enclosed value by a rational of either sign. -/
def scale (q : Rat) (x : Enclosure) : Enclosure :=
  if 0 ≤ q then ⟨q * x.low, q * x.high⟩ else ⟨q * x.high, q * x.low⟩

/-- Products of nonnegative enclosed values. -/
def mul (x y : Enclosure) : Enclosure := ⟨x.low * y.low, x.high * y.high⟩

/-- Quotients of a value by a positive one. -/
def div (x y : Enclosure) : Enclosure :=
  ⟨if 0 ≤ x.low then x.low / y.high else x.low / y.low,
    if 0 ≤ x.high then x.high / y.low else x.high / y.high⟩

/-- Reciprocals of positive values. -/
def inverse (x : Enclosure) : Enclosure := ⟨1 / x.high, 1 / x.low⟩

/-- An enclosure cut off above at a bound the value is known to respect. -/
def atMost (bound : Rat) (x : Enclosure) : Enclosure :=
  ⟨x.low, if x.high ≤ bound then x.high else bound⟩

/-- Enclosure of `a k + b k * t * (a (k + 1) + b (k + 1) * t * …)` for an
    enclosed nonnegative `t`, given an enclosure of what stands inside the
    innermost parentheses. -/
def nested (bits : Nat) (a b : Nat → Rat) (t tail : Enclosure) : Nat → Nat → Enclosure
  | 0, _ => tail
  | n + 1, k =>
    outward bits (add (exact (a k)) (scale (b k) (mul t (nested bits a b t tail n (k + 1)))))

/-- Refine an enclosure, doubling its precision each time, until both ends agree
    when rounded to `bits` bits. The last resort is the lower end. -/
def settle (bits : Nat) (enclose : Nat → Enclosure) : Nat → Nat → Rat
  | 0, precision => Rounding.toBits bits (enclose precision).low
  | n + 1, precision =>
    let x := enclose precision
    let rounded := Rounding.toBits bits x.low
    if rounded = Rounding.toBits bits x.high then rounded
    else settle bits enclose n (2 * precision)

/-- The value of a function given by its enclosures, rounded to `bits` bits. -/
def round (bits : Nat) (enclose : Nat → Enclosure) : Rat := settle bits enclose 8 128

end Enclosure

end Reckoner
