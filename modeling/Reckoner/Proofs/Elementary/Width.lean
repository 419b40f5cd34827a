import Mathlib
import Reckoner.Proofs.Elementary.Enclosure
import Reckoner.Proofs.Elementary.Trigonometry

/-!
# How Wide an Enclosure Is

An enclosure is of use if it is narrow, and how narrow it is can be followed through the
computation like its ends. A sum is as wide as its terms together, a product as wide as each
factor times the size of the other, and rounding outwards adds a little. In a series with
falling terms what a term adds is halved by the next one, so that the width of the sum is
about that of a term, and the tail has no part in it after a few hundred terms.

In the end the width is compared with the value. Then the last enclosure that is asked for
is narrow enough, whether or not its ends round alike.

## Main definitions

* `Enclosure.width`: The distance between the ends.

## Theorems

* `width_outward_le`, `width_add_le`, `width_scale`, `width_mul_le`, `width_div_le`,
  `width_inverse_le`, `width_atMost_le`: Operations on enclosures.
* `width_nested_le`: Series in nested form.
-/

namespace Reckoner

namespace Enclosure

/-- The distance between the ends. -/
def width (x : Enclosure) : Rat := |x.high - x.low|

section Operations

variable {a b c d r s u v : Rat} {x y : Enclosure}

theorem width_nonneg (x : Enclosure) : 0 ≤ width x := abs_nonneg _

@[simp]
theorem width_exact (q : Rat) : width (exact q) = 0 := by simp [width, exact]

/-- The width of what is only known to lie between zero and a bound. -/
theorem width_from_zero {bound : Rat} (h : 0 ≤ bound) : width ⟨0, bound⟩ = bound := by
  rw [width, sub_zero, abs_of_nonneg h]

theorem width_scale (q : Rat) (x : Enclosure) : width (scale q x) = |q| * width x := by
  simp only [width, scale]
  split
  · rw [← mul_sub, abs_mul]
  · rw [← mul_sub, abs_mul, abs_sub_comm]

theorem width_add_le (x y : Enclosure) : width (add x y) ≤ width x + width y := by
  simp only [width, add, add_sub_add_comm]
  exact abs_add_le _ _

/-- Rounding outwards moves each end by a unit of the grid at most. -/
theorem width_outward_le (bits : Nat) (x : Enclosure) :
    width (outward bits x) ≤ width x + 2 / 2 ^ bits := by
  have hpow : (0 : Rat) < 2 ^ bits := by positivity
  have hunit : (2 : Rat) / 2 ^ bits = 1 / 2 ^ bits + 1 / 2 ^ bits := by ring
  have hlow : |gridBelow bits x.low - x.low| ≤ 1 / 2 ^ bits := by
    rw [abs_of_nonpos (sub_nonpos.2 (gridBelow_le bits x.low)), neg_sub, sub_le_comm, gridBelow,
      le_div_iff₀ hpow, sub_mul, div_mul_cancel₀ _ hpow.ne']
    exact (Int.sub_one_lt_floor _).le
  have hhigh : |gridAbove bits x.high - x.high| ≤ 1 / 2 ^ bits := by
    rw [abs_of_nonneg (sub_nonneg.2 (le_gridAbove bits x.high)), sub_le_iff_le_add, gridAbove,
      div_le_iff₀ hpow, add_mul, div_mul_cancel₀ _ hpow.ne', add_comm]
    exact Rat.ceil_lt.le
  have hsplit : (outward bits x).high - (outward bits x).low = x.high - x.low +
      (gridAbove bits x.high - x.high) - (gridBelow bits x.low - x.low) := by
    simp only [outward]
    ring
  rw [width, width, hsplit, hunit]
  linarith [abs_sub (x.high - x.low + (gridAbove bits x.high - x.high))
    (gridBelow bits x.low - x.low), abs_add_le (x.high - x.low) (gridAbove bits x.high - x.high)]

/-- Each factor counts as much as the other one is large. -/
theorem width_mul_le (hx : |x.high| ≤ r) (hy : |y.low| ≤ s) :
    width (mul x y) ≤ r * width y + s * width x := by
  have hsplit : (mul x y).high - (mul x y).low =
      x.high * (y.high - y.low) + y.low * (x.high - x.low) := by
    simp only [mul]
    ring
  rw [width, hsplit]
  refine (abs_add_le _ _).trans (add_le_add ?_ ?_)
  · rw [abs_mul]
    exact mul_le_mul_of_nonneg_right hx (abs_nonneg _)
  · rw [abs_mul]
    exact mul_le_mul_of_nonneg_right hy (abs_nonneg _)

/-- Quotients by numbers that are not small, whichever ends are divided by which. -/
theorem abs_div_sub_div_le (hc : 0 < c) (hu : c ≤ u) (hv : c ≤ v) (a b : Rat) :
    |a / u - b / v| ≤ |a - b| / c + |b| * (|u - v| / (c * c)) := by
  have hupos := hc.trans_le hu
  have hvpos := hc.trans_le hv
  have hsplit : a / u - b / v = (a - b) / u + b * ((v - u) / (u * v)) := by
    field_simp
    ring
  rw [hsplit]
  refine (abs_add_le _ _).trans (add_le_add ?_ ?_)
  · rw [abs_div, abs_of_pos hupos]
    exact div_le_div_of_nonneg_left (abs_nonneg _) hc hu
  · rw [abs_mul, abs_div, abs_of_pos (mul_pos hupos hvpos), abs_sub_comm v u]
    refine mul_le_mul_of_nonneg_left ?_ (abs_nonneg b)
    exact div_le_div_of_nonneg_left (abs_nonneg _) (mul_pos hc hc)
      (mul_le_mul hu hv hc.le hupos.le)

theorem width_div_le (hc : 0 < c) (hy : Between c d y) :
    width (div x y) ≤ width x / c + |x.low| * (width y / (c * c)) := by
  have hpos : 0 ≤ width y / (c * c) := div_nonneg (width_nonneg y) (by positivity)
  have hpart : ∀ {u v : Rat}, |u - v| ≤ width y → |u - v| / (c * c) ≤ width y / (c * c) :=
    fun h => div_le_div_of_nonneg_right h (by positivity)
  have hsame : ∀ u : Rat, |u - u| ≤ width y := fun u => by
    rw [sub_self, abs_zero]
    exact width_nonneg y
  have hother : |y.low - y.high| ≤ width y := (abs_sub_comm _ _).le
  rw [width, width]
  simp only [div]
  -- Which ends are divided depends on signs, and the bound is the same in each case.
  split_ifs
  · exact (abs_div_sub_div_le hc hy.le_low hy.le_high _ _).trans
      (add_le_add le_rfl (mul_le_mul_of_nonneg_left (hpart hother) (abs_nonneg _)))
  · exact (abs_div_sub_div_le hc hy.le_low hy.le_low _ _).trans
      (add_le_add le_rfl (mul_le_mul_of_nonneg_left (hpart (hsame _)) (abs_nonneg _)))
  · exact (abs_div_sub_div_le hc hy.le_high hy.le_high _ _).trans
      (add_le_add le_rfl (mul_le_mul_of_nonneg_left (hpart (hsame _)) (abs_nonneg _)))
  · exact (abs_div_sub_div_le hc hy.le_high hy.le_low _ _).trans
      (add_le_add le_rfl (mul_le_mul_of_nonneg_left (hpart le_rfl) (abs_nonneg _)))

theorem width_inverse_le (hc : 0 < c) (hx : Between c d x) :
    width (inverse x) ≤ width x / (c * c) := by
  have hdifference := abs_div_sub_div_le hc hx.le_low hx.le_high 1 1
  rw [sub_self, abs_zero, zero_div, zero_add, abs_one, one_mul, abs_sub_comm x.low] at hdifference
  exact hdifference

/-- A bound between the ends only brings them closer together. -/
theorem width_atMost_le {bound : Rat} (hlow : x.low ≤ bound) :
    width (atMost bound x) ≤ width x := by
  simp only [width, atMost]
  split
  · exact le_rfl
  · rename_i hhigh
    rw [abs_of_nonneg (by linarith), abs_of_nonneg (by linarith)]
    linarith

end Operations

section Series

variable {p : Nat} {ratio : Nat → Rat} {t : Enclosure} {b r τ w : Rat}

/-- A series in nested form is about as wide as the widest of its terms, by induction from the
    innermost term outwards. What is inside the parentheses counts half at most. -/
theorem width_nested_le (first : Nat → Rat) (tail : Enclosure) (hratio : ∀ k, |ratio k| ≤ b)
    (ht : Between (-τ) τ t) (hw : width t ≤ w)
    (hrest : ∀ n k, Between (-r) r (nested p first ratio t tail n k)) (hhalf : b * τ ≤ 1 / 2)
    (n k : Nat) : width (nested p first ratio t tail n k) ≤
      2 * (b * (r * w) + 2 / 2 ^ p) + (1 / 2) ^ n * width tail := by
  have hb : 0 ≤ b := (abs_nonneg _).trans (hratio 0)
  have hτ : |t.high| ≤ τ := abs_le.2 ⟨ht.le_high, ht.high_le⟩
  induction n generalizing k with
  | zero =>
      have hr : 0 ≤ r := (abs_nonneg _).trans (abs_le.2 ⟨(hrest 0 0).le_low, (hrest 0 0).low_le⟩)
      have hpositive : 0 ≤ b * (r * w) :=
        mul_nonneg hb (mul_nonneg hr ((width_nonneg t).trans hw))
      have hgrid : (0 : Rat) ≤ 2 / 2 ^ p := by positivity
      rw [pow_zero, one_mul, nested]
      linarith
  | succ n ih =>
      have hinner := ih (k + 1)
      have hlow : |(nested p first ratio t tail n (k + 1)).low| ≤ r :=
        abs_le.2 ⟨(hrest n (k + 1)).le_low, (hrest n (k + 1)).low_le⟩
      simp only [nested]
      generalize nested p first ratio t tail n (k + 1) = inner at *
      have hr : 0 ≤ r := (abs_nonneg _).trans hlow
      have hproduct : width (scale (ratio k) (mul t inner)) ≤ b * (τ * width inner + r * w) := by
        rw [width_scale]
        refine mul_le_mul (hratio k) ((width_mul_le hτ hlow).trans ?_) (width_nonneg _) hb
        exact add_le_add le_rfl (mul_le_mul_of_nonneg_left hw hr)
      -- The factor in front halves whatever width is inside.
      have hhalved : b * (τ * width inner) ≤ 1 / 2 * width inner := by
        rw [← mul_assoc]
        exact mul_le_mul_of_nonneg_right hhalf (width_nonneg inner)
      have hsum := width_add_le (exact (first k)) (scale (ratio k) (mul t inner))
      rw [width_exact, zero_add] at hsum
      calc _ ≤ width (add (exact (first k)) (scale (ratio k) (mul t inner))) + 2 / 2 ^ p :=
            width_outward_le p _
        _ ≤ b * (τ * width inner + r * w) + 2 / 2 ^ p := by linarith
        _ ≤ 1 / 2 * width inner + (b * (r * w) + 2 / 2 ^ p) := by
            rw [mul_add]
            linarith
        _ ≤ 2 * (b * (r * w) + 2 / 2 ^ p) + (1 / 2) ^ (n + 1) * width tail := by
            rw [pow_succ']
            linarith

end Series

end Enclosure

end Reckoner
