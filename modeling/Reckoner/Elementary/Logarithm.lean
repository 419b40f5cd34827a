import Reckoner.Elementary.Enclosure

/-!
# Logarithms

The natural and the decimal logarithm of a positive rational, rounded once.

A power of two is split off so that what remains lies between 2/3 and 4/3, and
the logarithm of the rest is twice the inverse hyperbolic tangent of
`(y - 1) / (y + 1)`, which is then at most 1/5 from zero. Arguments near one
keep all their digits this way, because no power of two is split off from them
and the factor `(y - 1) / (y + 1)` is exact.

## Main definitions

* `naturalEnclosure`: An enclosure of the natural logarithm.
* `naturalLog`, `decimalLog`: The logarithms, rounded to a number of bits.
-/

namespace Reckoner

namespace Elementary

/-- Enclosure of `ln y` for `y` between 2/3 and 4/3. -/
def nearOneEnclosure (precision : Nat) (y : Rat) : Enclosure :=
  let z := (y - 1) / (y + 1)
  let t := Enclosure.outward precision (.exact (z * z))
  let series :=
    Enclosure.nested precision (fun k => 1 / (2 * k + 1)) (fun _ => 1) t ⟨0, 2⟩
      (precision / 4 + 8) 0
  Enclosure.scale (2 * z) series

/-- Enclosure of the natural logarithm of a positive rational. -/
def naturalEnclosure (precision : Nat) (q : Rat) : Enclosure :=
  let order := Rounding.binaryOrder q
  let low := q / (2 : Rat) ^ order
  let (order, y) := if 4 / 3 < low then (order + 1, low / 2) else (order, low)
  let rest := nearOneEnclosure precision y
  if order = 0 then rest
  else
    -- The logarithm of two is that of 4/3, less that of 2/3.
    let two :=
      Enclosure.add (nearOneEnclosure precision (4 / 3))
        (Enclosure.scale (-1) (nearOneEnclosure precision (2 / 3)))
    Enclosure.add (Enclosure.scale order two) rest

/-- The natural logarithm of a positive rational, rounded to `bits` bits. -/
def naturalLog (bits : Nat) (q : Rat) : Rat :=
  if q = 1 then 0 else Enclosure.round bits fun precision => naturalEnclosure precision q

/-- The decimal logarithm of a positive rational, rounded to `bits` bits. -/
def decimalLog (bits : Nat) (q : Rat) : Rat :=
  if q = 1 then 0
  else
    Enclosure.round bits fun precision =>
      Enclosure.div (naturalEnclosure precision q) (naturalEnclosure precision 10)

end Elementary

end Reckoner
