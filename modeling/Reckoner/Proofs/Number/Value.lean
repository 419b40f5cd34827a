import Mathlib
import Reckoner.Proofs.Number.ReadBack

/-!
# Values of Doubles

A finite double is a sign and a magnitude, and its value is the one put on the other.
What the calculator asks of a double, whether it is zero, negative or an integer, are
questions about its value, and what the value does not tell is only the sign of a zero.

## Theorems

* `abs_signed_sub`, `abs_signed_sub_of_ne`: Distances of numbers with signs.
* `toRat?_eq_some`: The parts of a finite double.
* `eq_of_magnitude_eq`: A value has one significand and one exponent.
* `isZero_iff`, `isNegative_iff`, `integer?_eq_some_iff`: Questions about the value.
* `unsignedZero_eq_of_toRat?`: A value is that of one double, or of both zeros.
-/

namespace Reckoner

namespace Double

section Signs

theorem magnitude_nonneg (m : Nat) (e : Int) : 0 ≤ magnitude m e := by
  unfold magnitude
  positivity

theorem abs_signed (s : Bool) (q : Rat) : |signed s q| = |q| := by
  cases s
  · rfl
  · exact abs_neg q

theorem signed_zero (s : Bool) : signed s 0 = 0 := by cases s <;> rfl

/-- A sign that two numbers share does not change their distance. -/
theorem abs_signed_sub (s : Bool) (a q : Rat) : |signed s a - signed s q| = |a - q| := by
  cases s
  · rfl
  · simp only [signed, if_true]
    rw [neg_sub_neg, abs_sub_comm]

/-- Numbers on different sides of zero are as far apart as both are from it. -/
theorem abs_signed_sub_of_ne {s t : Bool} {a q : Rat} (hne : t ≠ s) (ha : 0 ≤ a) (hq : 0 ≤ q) :
    |signed t a - signed s q| = a + q := by
  cases s <;> cases t <;> simp only [signed, Bool.false_eq_true, if_true, if_false] at hne ⊢
  · exact absurd rfl hne
  · rw [abs_of_nonpos (by linarith)]
    ring
  · rw [abs_of_nonneg (by linarith)]
    ring
  · exact absurd rfl hne

/-- The product of two magnitudes has the sign that the factors dictate. -/
theorem signed_mul_signed (s t : Bool) (a b : Rat) :
    signed s a * signed t b = signed (s != t) (a * b) := by
  cases s <;> cases t <;> simp [signed]

theorem signed_div_signed (s t : Bool) (a b : Rat) :
    signed s a / signed t b = signed (s != t) (a / b) := by
  cases s <;> cases t <;> simp [signed, neg_div, div_neg]

end Signs

section Values

variable {m n : Nat} {e f : Int} {a b : Rat} {x y : Double}

theorem toRat?_eq_some {x : Double} {a : Rat} (h : x.toRat? = some a) :
    ∃ s m e, ∃ hc : Canonical m e, x = finite s m e hc ∧ a = signed s (magnitude m e) := by
  cases x with
  | finite s m e hc =>
      cases h
      exact ⟨s, m, e, hc, rfl, rfl⟩
  | infinite s => cases h
  | nan => cases h

/-- Significand and exponent are read off the value. -/
theorem eq_of_magnitude_eq (h : Canonical m e) (h' : Canonical n f)
    (heq : magnitude m e = magnitude n f) : m = n ∧ e = f := by
  have hround := ofMagnitude_magnitude false h
  rw [heq, ofMagnitude_magnitude false h'] at hround
  simp only [finite.injEq, true_and] at hround
  exact ⟨hround.1.symm, hround.2.symm⟩

theorem toRat?_zero : zero.toRat? = some 0 := by simp [zero, toRat?, magnitude, signed]

/-- Numbers with one value are the same, up to the sign of a zero. -/
theorem unsignedZero_eq_of_toRat? (hx : x.toRat? = some a) (hy : y.toRat? = some a) :
    x.unsignedZero = y.unsignedZero := by
  rcases toRat?_eq_some hx with ⟨s, m, e, hc, rfl, rfl⟩
  rcases toRat?_eq_some hy with ⟨t, n, f, hc', rfl, hvalue⟩
  have habs : |signed s (magnitude m e)| = |signed t (magnitude n f)| := by rw [hvalue]
  rw [abs_signed, abs_signed, abs_of_nonneg (magnitude_nonneg m e),
    abs_of_nonneg (magnitude_nonneg n f)] at habs
  rcases eq_of_magnitude_eq hc hc' habs with ⟨rfl, rfl⟩
  by_cases hm : m = 0
  · simp only [unsignedZero, isZero, hm, beq_self_eq_true, if_true]
  · have hpos : 0 < magnitude m e :=
      mul_pos (by exact_mod_cast Nat.pos_of_ne_zero hm) (by positivity)
    have hsign : s = t := by
      by_contra hne
      have hapart := abs_signed_sub_of_ne (Ne.symm hne) hpos.le hpos.le
      rw [hvalue, sub_self, abs_zero] at hapart
      linarith
    rw [hsign]

theorem toRat?_unsignedZero (x : Double) : x.unsignedZero.toRat? = x.toRat? := by
  cases x with
  | finite s m e hc =>
      by_cases hm : m = 0
      · subst hm
        simp [unsignedZero, isZero, toRat?, zero, magnitude, signed_zero]
      · simp [unsignedZero, isZero, hm]
  | infinite s => rfl
  | nan => rfl

theorem isFinite_unsignedZero (x : Double) : x.unsignedZero.isFinite = x.isFinite := by
  cases x with
  | finite s m e hc =>
      simp only [unsignedZero]
      split <;> rfl
  | infinite s => rfl
  | nan => rfl

theorem isFinite_of_toRat? (h : x.toRat? = some a) : x.isFinite = true := by
  rcases toRat?_eq_some h with ⟨s, m, e, hc, rfl, -⟩
  rfl

theorem exists_toRat? (h : x.isFinite = true) : ∃ a, x.toRat? = some a := by
  cases x with
  | finite s m e hc => exact ⟨_, rfl⟩
  | infinite s => cases h
  | nan => cases h

theorem magnitude_pos_iff (m : Nat) (e : Int) : 0 < magnitude m e ↔ m ≠ 0 := by
  have hunit : (0 : Rat) < (2 : Rat) ^ e := by positivity
  rw [magnitude, mul_pos_iff_of_pos_right hunit, Nat.cast_pos, Nat.pos_iff_ne_zero]

theorem isZero_iff (h : x.toRat? = some a) : x.isZero = true ↔ a = 0 := by
  rcases toRat?_eq_some h with ⟨s, m, e, hc, rfl, rfl⟩
  have hpos := magnitude_pos_iff m e
  have hnonneg := magnitude_nonneg m e
  rw [← abs_eq_zero, abs_signed, abs_of_nonneg hnonneg]
  simp only [isZero, beq_iff_eq]
  by_cases hm : m = 0
  · simp [hm, magnitude]
  · simp only [hm, false_iff]
    exact (hpos.2 hm).ne'

theorem isNegative_iff (h : x.toRat? = some a) : x.isNegative = true ↔ a < 0 := by
  rcases toRat?_eq_some h with ⟨s, m, e, hc, rfl, rfl⟩
  have hpos := magnitude_pos_iff m e
  have hnonneg := magnitude_nonneg m e
  cases s with
  | false => simp [isNegative, signed, hnonneg]
  | true => simp [isNegative, signed, hpos]

theorem integer?_eq_some_iff (h : x.toRat? = some a) {k : Int} :
    x.integer? = some k ↔ a = k := by
  simp only [integer?, h]
  constructor
  · intro hk
    split at hk
    · rename_i hden
      cases hk
      exact ((Rat.den_eq_one_iff a).1 hden).symm
    · cases hk
  · rintro rfl
    rw [if_pos (Rat.den_intCast k), Rat.num_intCast]

end Values

end Double

end Reckoner
