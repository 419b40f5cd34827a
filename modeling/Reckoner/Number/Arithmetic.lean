import Reckoner.Number.Double

/-!
# Arithmetic on Doubles

Sum, difference, product and quotient of doubles. For finite operands each is
the exact rational result, rounded once; the rest of each definition says what
happens where there is no exact result. A sum that is exactly zero is positive
unless both terms carry a minus sign, and products and quotients take the sign
that their operands dictate, zeros and infinities included.

Division by zero is given its value here too. Whether it is an error is a
question for the calculator, not for the number format.

## Main definitions

* `Double.add`, `Double.sub`, `Double.mul`, `Double.div`: The four operations.
-/

namespace Reckoner

namespace Double

/-- The sum. Opposite infinities have none. -/
protected def add (x y : Double) : Double :=
  match x, y with
  | .nan, _ => .nan
  | _, .nan => .nan
  | .infinite s, .infinite t => if s = t then .infinite s else .nan
  | .infinite s, .finite .. => .infinite s
  | .finite .., .infinite t => .infinite t
  | .finite s m e _, .finite t n f _ =>
    let sum := signed s (magnitude m e) + signed t (magnitude n f)
    if sum = 0 then (if s && t then negativeZero else zero) else ofRat sum

/-- The difference, as the sum with the opposite. -/
protected def sub (x y : Double) : Double := Double.add x (-y)

/-- The product. Zero times an infinity has none. -/
protected def mul (x y : Double) : Double :=
  let sign := x.signBit != y.signBit
  match x, y with
  | .nan, _ => .nan
  | _, .nan => .nan
  | .infinite _, y => if y.isZero then .nan else .infinite sign
  | x, .infinite _ => if x.isZero then .nan else .infinite sign
  | .finite _ m e _, .finite _ n f _ => ofMagnitude sign (magnitude m e * magnitude n f)

/-- The quotient. A nonzero number over zero is infinite; zero over zero and an
    infinity over an infinity have no quotient. -/
protected def div (x y : Double) : Double :=
  let sign := x.signBit != y.signBit
  match x, y with
  | .nan, _ => .nan
  | _, .nan => .nan
  | .infinite _, .infinite _ => .nan
  | .infinite _, .finite .. => .infinite sign
  | .finite .., .infinite _ => ofMagnitude sign 0
  | .finite _ m e _, .finite _ n f _ =>
    if n = 0 then (if m = 0 then .nan else .infinite sign)
    else ofMagnitude sign (magnitude m e / magnitude n f)

instance : Add Double := ⟨Double.add⟩
instance : Sub Double := ⟨Double.sub⟩
instance : Mul Double := ⟨Double.mul⟩
instance : Div Double := ⟨Double.div⟩

end Double

end Reckoner
