import Mathlib
import Reckoner.Operation.Unary
import Reckoner.Proofs.Elementary.Accuracy
import Reckoner.Proofs.Elementary.SquareRoot

/-!
# What a Numerical Library Is Relied On For

The values of the functions come from a numerical library, and what is said about them can
only be as good as that library. It is accurate in a function if it has a value wherever the
real function has one, and if the value differs from the real one by a 2 ^ 59th part of it at
most. That is half the last place of 60 bits, twice over: a value may be rounded, or rounded
after it has been cut off a few bits further on, and which of these happens is left open.

Roots and logarithms are relied on most, because what comes out of them is not looked at again
(`Numerics.Reliable`). A trigonometric function may fail, and only who asks when it does has to
know more about it: that it is accurate too, and that there is no tangent at the poles
(`Numerics.Faithful`).

## Main definitions

* `Near`: A rational that is close to a real number.
* `Unary.real`, `Unary.HasReal`: The real function, and where it has a value.
* `Numerics.Accurate`: A library is accurate in a function.
* `Numerics.Reliable`: It is in those whose values are not checked.
* `Numerics.Faithful`: It is in all of them.

## Theorems

* `Near.abs_le`, `Near.half_le`, `Near.le_half`: What is close has the same sign and size.
* `Numerics.reference_faithful`: The library that the program uses is relied on rightly.
-/

namespace Reckoner

namespace Unary

/-- The real function. The arguments of trigonometric functions are degrees. -/
noncomputable def real (f : Unary) (q : Rat) : ℝ :=
  match f with
  | .negate => -q
  | .squareRoot => √(q : ℝ)
  | .sine => Real.sin (Elementary.radians q)
  | .cosine => Real.cos (Elementary.radians q)
  | .tangent => Real.tan (Elementary.radians q)
  | .decimalLog => Real.log q / Real.log 10
  | .naturalLog => Real.log q

/-- Where the real function has a value. -/
def HasReal (f : Unary) (q : Rat) : Prop :=
  match f with
  | .squareRoot => 0 ≤ q
  | .decimalLog | .naturalLog => 0 < q
  | .tangent => ¬ Elementary.IsPole q
  | .negate | .sine | .cosine => True

end Unary

/-- The rational is close to the real number, compared with its size. -/
structure Near (v : Rat) (r : ℝ) : Prop where
  error_le : |(v : ℝ) - r| ≤ |r| / 2 ^ 59

section Near

variable {v : Rat} {r : ℝ}

theorem Near.abs_le (h : Near v r) : |(v : ℝ)| ≤ 2 * |r| := by
  have hpart : |r| / 2 ^ 59 ≤ |r| := div_le_self (abs_nonneg r) (one_le_pow₀ (by norm_num))
  linarith [abs_sub_abs_le_abs_sub (v : ℝ) r, h.error_le]

/-- What is close to a number that is not too large is not too large. -/
theorem Near.abs_lt (h : Near v r) {n : Int} (hn : n < 1022) (hr : |r| ≤ (2 : ℝ) ^ n) :
    |v| < (2 : Rat) ^ (1023 : Int) := by
  have hreal : |(v : ℝ)| < (2 : ℝ) ^ (1023 : Int) :=
    calc |(v : ℝ)| ≤ 2 * |r| := h.abs_le
      _ ≤ 2 * (2 : ℝ) ^ n := by linarith
      _ = (2 : ℝ) ^ (1 + n) := (zpow_one_add₀ two_ne_zero _).symm
      _ < (2 : ℝ) ^ (1023 : Int) := zpow_lt_zpow_right₀ (by norm_num) (by omega)
  exact_mod_cast hreal

/-- What is close to a number that is not negative is not negative. -/
theorem Near.half_le (h : Near v r) (hr : 0 ≤ r) : r / 2 ≤ v := by
  have hclose := h.error_le
  have hpart : r / 2 ^ 59 ≤ r / 2 := div_le_div_of_nonneg_left hr (by norm_num) (by norm_num)
  rw [abs_of_nonneg hr] at hclose
  linarith [neg_abs_le ((v : ℝ) - r)]

/-- And so it is on the other side. -/
theorem Near.le_half (h : Near v r) (hr : r ≤ 0) : (v : ℝ) ≤ r / 2 := by
  have hclose := h.error_le
  have hpart : -r / 2 ^ 59 ≤ -r / 2 :=
    div_le_div_of_nonneg_left (neg_nonneg.2 hr) (by norm_num) (by norm_num)
  rw [abs_of_nonpos hr] at hclose
  linarith [le_abs_self ((v : ℝ) - r)]

end Near

namespace Numerics

variable {library : Numerics}

/-- The library has a value where the real function has one, and the value is close to it. -/
def Accurate (library : Numerics) (f : Unary) : Prop :=
  ∀ q, f.HasReal q → ∃ v, library.value? f q = some v ∧ Near v (f.real q)

/-- The library is accurate in those functions whose values are not looked at again. -/
structure Reliable (library : Numerics) : Prop where
  squareRoot : library.Accurate .squareRoot
  decimalLog : library.Accurate .decimalLog
  naturalLog : library.Accurate .naturalLog

/-- The library is accurate in all functions, and knows the poles of the tangent. -/
structure Faithful (library : Numerics) : Prop extends Reliable library where
  sine : library.Accurate .sine
  cosine : library.Accurate .cosine
  tangent : library.Accurate .tangent
  pole : ∀ q, Elementary.IsPole q → library.value? .tangent q = none

/-- The square root of the library that the program uses is accurate. -/
theorem reference_squareRoot : reference.Accurate .squareRoot := fun q hq =>
  ⟨_, rfl, ⟨by
    rw [Unary.real, abs_of_nonneg (Real.sqrt_nonneg (q : ℝ))]
    exact Elementary.root_error hq⟩⟩

theorem reference_reliable : reference.Reliable where
  squareRoot := reference_squareRoot
  decimalLog _ hq := ⟨_, rfl, ⟨Elementary.decimalLog_error hq⟩⟩
  naturalLog _ hq := ⟨_, rfl, ⟨Elementary.naturalLog_error hq⟩⟩

/-- The library that the program uses is relied on rightly. -/
theorem reference_faithful : reference.Faithful where
  toReliable := reference_reliable
  sine q _ := ⟨_, rfl, ⟨Elementary.sineDegrees_error q⟩⟩
  cosine q _ := ⟨_, rfl, ⟨Elementary.cosineDegrees_error q⟩⟩
  tangent q hq := by
    cases hvalue : Elementary.tangentDegrees? Unary.workingBits q with
    | none => exact absurd ((Elementary.tangentDegrees?_eq_none_iff _ q).1 hvalue) hq
    | some v => exact ⟨v, hvalue, ⟨Elementary.tangentDegrees?_error hvalue⟩⟩
  pole q hq := (Elementary.tangentDegrees?_eq_none_iff Unary.workingBits q).2 hq

end Numerics

end Reckoner
