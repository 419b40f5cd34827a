import Mathlib
import Reckoner.Proofs.Elementary.Enclosure

/-!
# Logarithms Are the Real Ones

The enclosures of logarithms enclose the real logarithm. Near one it is an area under the
hyperbola that is summed up by the series of the inverse hyperbolic tangent: all terms have
one sign, and what is left of the series after some terms is, in units of the next power, at
most the sum of a geometric series. Elsewhere a power of two is split off, and the logarithm
of two is that of 4/3, less that of 2/3.

## Main definitions

* `remainingSum`: What is left of the series, in units of the next power.

## Theorems

* `remainingSum_eq`, `remainingSum_bounds`: One term, and how much is left.
* `nearOneEnclosure_contains`, `naturalEnclosure_contains`: Natural logarithms.
* `decimalEnclosure_contains`: Decimal ones.
-/

namespace Reckoner

namespace Elementary

open Enclosure

variable {p : Nat} {q y : Rat}

section Series

variable {τ : ℝ}

/-- What is left of the series after some terms, in units of the next power. -/
noncomputable def remainingSum (τ : ℝ) (k : Nat) : ℝ :=
  tsum fun i : Nat => τ ^ i * (1 / (2 * ((k + i : Nat) : ℝ) + 1))

theorem reciprocal_odd_le_one (k : Nat) : 1 / (2 * (k : ℝ) + 1) ≤ 1 := by
  rw [div_le_one (by positivity)]
  linarith [(Nat.cast_nonneg k : (0 : ℝ) ≤ k)]

theorem remainingSum_summable (hτ : 0 ≤ τ) (hτ' : τ < 1) (k : Nat) :
    Summable fun i : Nat => τ ^ i * (1 / (2 * ((k + i : Nat) : ℝ) + 1)) := by
  refine Summable.of_nonneg_of_le (fun i => by positivity) (fun i => ?_)
    (summable_geometric_of_lt_one hτ hτ')
  exact mul_le_of_le_one_right (by positivity) (reciprocal_odd_le_one _)

/-- The next term, and what is left after it. -/
theorem remainingSum_eq (hτ : 0 ≤ τ) (hτ' : τ < 1) (k : Nat) :
    remainingSum τ k = 1 / (2 * (k : ℝ) + 1) + τ * remainingSum τ (k + 1) := by
  rw [remainingSum, (remainingSum_summable hτ hτ' k).tsum_eq_zero_add, remainingSum,
    ← tsum_mul_left]
  congr 1
  · simp
  · refine tsum_congr fun i => ?_
    rw [pow_succ', mul_assoc, show k + (i + 1) = k + 1 + i by ring]

/-- A geometric series is larger. -/
theorem remainingSum_bounds (hτ : 0 ≤ τ) (hτ' : τ ≤ 1 / 2) (k : Nat) :
    0 ≤ remainingSum τ k ∧ remainingSum τ k ≤ 2 := by
  have hlt : τ < 1 := by linarith
  refine ⟨tsum_nonneg fun i => by positivity, ?_⟩
  calc remainingSum τ k ≤ tsum fun i : Nat => τ ^ i :=
        (remainingSum_summable hτ hlt k).tsum_le_tsum
          (fun i => mul_le_of_le_one_right (by positivity) (reciprocal_odd_le_one _))
          (summable_geometric_of_lt_one hτ hlt)
    _ = (1 - τ)⁻¹ := tsum_geometric_of_lt_one hτ hlt
    _ ≤ 2 := by
        rw [inv_le_comm₀ (by linarith) (by norm_num)]
        linarith

/-- The logarithm of a number near one is twice the inverse hyperbolic tangent. -/
theorem log_eq_remainingSum {y z : ℝ} (hz : z = (y - 1) / (y + 1)) (hy : 0 < y)
    (hsmall : z * z ≤ 1 / 2) : Real.log y = 2 * z * remainingSum (z * z) 0 := by
  have hy' : y + 1 ≠ 0 := by linarith
  have habs : |z| < 1 := by
    rw [← sq_lt_one_iff_abs_lt_one, sq]
    linarith
  have hplus : 1 + z = 2 * y / (y + 1) := by
    rw [hz]
    field_simp
    ring
  have hminus : 1 - z = 2 / (y + 1) := by
    rw [hz]
    field_simp
    ring
  -- Both have the same denominator, and their quotient is the number.
  have hlog : Real.log (1 + z) - Real.log (1 - z) = Real.log y := by
    rw [hplus, hminus, ← Real.log_div (by positivity) (by positivity)]
    congr 1
    field_simp
  rw [← hlog, ← (Real.hasSum_log_sub_log_of_abs_lt_one habs).tsum_eq, remainingSum,
    ← tsum_mul_left]
  refine tsum_congr fun i => ?_
  rw [zero_add, pow_succ, pow_mul, sq]
  ring

end Series

/-- Near one the enclosure is that of the logarithm. -/
theorem nearOneEnclosure_contains (p : Nat) (hlow : 2 / 3 ≤ y) (hhigh : y ≤ 4 / 3) :
    (nearOneEnclosure p y).Contains (Real.log y) := by
  rcases argument_bounds hlow hhigh with ⟨hzlow, hzhigh⟩
  have hpos : (0 : ℝ) < y := by
    have : 0 < y := by linarith
    exact_mod_cast this
  simp only [nearOneEnclosure]
  generalize hz : (y - 1) / (y + 1) = z at *
  have hzreal : (z : ℝ) = ((y : ℝ) - 1) / (y + 1) := by
    rw [← hz]
    push_cast
    rfl
  have hsquare : (z : ℝ) * z ≤ 1 / 2 := by
    have hrat : ((z * z : Rat) : ℝ) ≤ ((1 / 2 : Rat) : ℝ) := by
      exact_mod_cast (by nlinarith : z * z ≤ 1 / 2)
    push_cast at hrat
    exact hrat
  have ht : (outward p (exact (z * z))).Contains ((z : ℝ) * z) := by
    have hexact := (contains_exact (z * z)).outward p
    push_cast at hexact
    exact hexact
  -- A step of the nested form takes one term off what is left of the series.
  have hseries : (nested p (fun k => 1 / (2 * (k : Rat) + 1)) (fun _ => 1)
      (outward p (exact (z * z))) ⟨0, 2⟩ (p / 4 + 8) 0).Contains
        (remainingSum ((z : ℝ) * z) 0) := by
    refine contains_nested p ht (gridBelow_nonneg p (mul_self_nonneg z)) (fun k => ?_)
      (fun k => (remainingSum_bounds (mul_self_nonneg _) hsquare k).1) (fun k => ?_) _ 0
    · rw [remainingSum_eq (mul_self_nonneg _) (by linarith) k]
      push_cast
      ring
    · rcases remainingSum_bounds (mul_self_nonneg _) hsquare k with ⟨hnonneg, hle⟩
      exact ⟨by simpa using hnonneg, by simpa using hle⟩
  have hscaled := hseries.scale (2 * z)
  rw [log_eq_remainingSum hzreal hpos hsquare]
  push_cast at hscaled
  exact hscaled

theorem twoEnclosure_contains (p : Nat) : (twoEnclosure p).Contains (Real.log 2) := by
  have hupper := nearOneEnclosure_contains p (y := 4 / 3) (by norm_num) le_rfl
  have hlower := nearOneEnclosure_contains p (y := 2 / 3) le_rfl (by norm_num)
  have hsum := hupper.add (hlower.scale (-1))
  -- Two is a quotient of numbers near one.
  have hlog : Real.log ((4 / 3 : Rat) : ℝ) + ((-1 : Rat) : ℝ) * Real.log ((2 / 3 : Rat) : ℝ) =
      Real.log 2 := by
    push_cast
    rw [neg_one_mul, ← sub_eq_add_neg, ← Real.log_div (by norm_num) (by norm_num)]
    norm_num
  rwa [hlog] at hsum

/-- The logarithm of a number from which a power of two is split off. -/
theorem log_of_split {order : Int} (hlow : 2 / 3 ≤ y) (hsplit : q = y * (2 : Rat) ^ order) :
    Real.log q = order * Real.log 2 + Real.log y := by
  have hy : (y : ℝ) ≠ 0 := by
    have : y ≠ 0 := by linarith
    exact_mod_cast this
  rw [hsplit]
  push_cast
  rw [Real.log_mul hy (by positivity), Real.log_zpow, add_comm]

/-- A power of two counts that many times the logarithm of two. -/
theorem naturalEnclosure_contains (p : Nat) (hq : 0 < q) :
    (naturalEnclosure p q).Contains (Real.log q) := by
  rcases naturalEnclosure_eq p hq with ⟨order, y, hlow, hhigh, hsplit, -, heq⟩
  have hrest := nearOneEnclosure_contains p hlow hhigh
  rw [heq, log_of_split hlow hsplit]
  split
  · rename_i hzero
    rwa [hzero, Int.cast_zero, zero_mul, zero_add]
  · have hpower := (twoEnclosure_contains p).scale (order : Rat)
    push_cast at hpower
    exact hpower.add hrest

/-- A decimal logarithm is a quotient of two natural ones. -/
theorem decimalEnclosure_contains (hp : 7 ≤ p) (hq : 0 < q) :
    (div (naturalEnclosure p q) (naturalEnclosure p 10)).Contains (Real.log q / Real.log 10) := by
  have hten := naturalEnclosure_contains p (q := 10) (by norm_num)
  push_cast at hten
  exact (naturalEnclosure_contains p hq).div hten
    (lt_of_lt_of_le one_pos (naturalEnclosure_ten hp).le_low)

end Elementary

end Reckoner
