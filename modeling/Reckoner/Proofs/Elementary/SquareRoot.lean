import Mathlib
import Reckoner.Elementary.SquareRoot
import Reckoner.Proofs.Number.Mantissa

/-!
# How Accurate a Square Root Is

No real number is computed for the square root of a rational. The integer nearest to a root is
found by comparing the radicand with the square of the point halfway between two integers, and
this comparison decides on the right side of a tie too. Scaled by a power of four, a radicand
has a root with as many bits before the point as are kept. So a root with a number of bits is
the real root, rounded.

The root of an integer without a square factor is cut off first and rounded then. That is not
always what rounding once comes to, but with some more bits in between it is as accurate.

## Theorems

* `natSqrt_bounds`: The integer square root is less than one below the real one.
* `nearestRoot_spec`: The integer nearest to a root is that.
* `isRoundedTo_rootToBits`: A root that is rounded once is the real one, rounded.
* `rootBelow_bounds`: What is left when a root is cut off.
* `root_error`: Either way the root is accurate.
-/

namespace Reckoner

namespace Elementary

/-- The integer square root of what a rational has before the point is less than one below
    the real root. -/
theorem natSqrt_bounds {q : Rat} (hq : 0 ≤ q) : (Nat.sqrt q.floor.toNat : ℝ) ≤ √(q : ℝ) ∧
    √(q : ℝ) < Nat.sqrt q.floor.toNat + 1 := by
  have hfloor : ((q.floor.toNat : Int) : Rat) = q.floor := by
    rw [Int.toNat_of_nonneg (Rat.le_floor_iff.2 (by exact_mod_cast hq))]
  constructor
  · refine Real.le_sqrt_of_sq_le ?_
    have hsquare : Nat.sqrt q.floor.toNat ^ 2 ≤ q.floor.toNat := Nat.sqrt_le' _
    have hrat : ((Nat.sqrt q.floor.toNat ^ 2 : Nat) : Rat) ≤ q := by
      refine le_trans ?_ (Rat.floor_le q)
      rw [← hfloor]
      exact_mod_cast hsquare
    exact_mod_cast hrat
  · rw [Real.sqrt_lt' (by positivity)]
    have hsquare : q.floor.toNat + 1 ≤ (Nat.sqrt q.floor.toNat + 1) ^ 2 := Nat.lt_succ_sqrt' _
    have hrat : q < (((Nat.sqrt q.floor.toNat + 1) ^ 2 : Nat) : Rat) := by
      refine (Rat.lt_floor_add_one q).trans_le ?_
      rw [Int.cast_add, ← hfloor]
      exact_mod_cast hsquare
    exact_mod_cast hrat

/-- The integer that is found is half a unit away from the real root at most, and even if it
    is that far. -/
theorem nearestRoot_spec {q : Rat} (hq : 0 ≤ q) :
    |(nearestRoot q : ℝ) - √(q : ℝ)| ≤ 1 / 2 ∧
      (|(nearestRoot q : ℝ) - √(q : ℝ)| = 1 / 2 → nearestRoot q % 2 = 0) := by
  rcases natSqrt_bounds hq with ⟨hlow, hhigh⟩
  simp only [nearestRoot]
  generalize Nat.sqrt q.floor.toNat = low at *
  have hmiddle : (0 : ℝ) ≤ low + 1 / 2 := by positivity
  have hcast : (((low : Rat) + 1 / 2) * ((low : Rat) + 1 / 2) : Rat) =
      ((low : ℝ) + 1 / 2) * (low + 1 / 2) := by push_cast; ring
  -- The radicand is compared with the square of the middle, and the root with the middle.
  split
  · rename_i hbelow
    have hroot : √(q : ℝ) < low + 1 / 2 := by
      rw [Real.sqrt_lt' (by positivity), sq, ← hcast]
      exact_mod_cast hbelow
    rw [abs_of_nonpos (by linarith)]
    exact ⟨by linarith, fun htie => by linarith⟩
  · rename_i hnotbelow
    split
    · rename_i habove
      have hroot : (low : ℝ) + 1 / 2 < √(q : ℝ) := by
        rw [Real.lt_sqrt hmiddle, sq, ← hcast]
        exact_mod_cast habove
      push_cast
      rw [abs_of_nonneg (by linarith)]
      exact ⟨by linarith, fun htie => by linarith⟩
    · rename_i hnotabove
      have hroot : √(q : ℝ) = low + 1 / 2 := by
        have hvalue : q = ((low : Rat) + 1 / 2) * ((low : Rat) + 1 / 2) :=
          le_antisymm (not_lt.1 hnotabove) (not_lt.1 hnotbelow)
        rw [hvalue, hcast, Real.sqrt_mul_self hmiddle]
      rw [hroot]
      split
      · rename_i heven
        rw [abs_of_nonpos (by linarith)]
        exact ⟨by linarith, fun _ => heven⟩
      · push_cast
        rw [abs_of_nonneg (by linarith)]
        exact ⟨by linarith, fun _ => by omega⟩

/-- A power of four in the radicand is a power of two in the root. -/
theorem sqrt_eq_scaled {q : Rat} (hq : 0 ≤ q) (e : Int) :
    √(q : ℝ) = √((q / (4 : Rat) ^ e : Rat) : ℝ) * (2 : ℝ) ^ e := by
  have hscaled : 0 ≤ q / (4 : Rat) ^ e := by positivity
  have hfour : (4 : ℝ) ^ e = (2 : ℝ) ^ e * (2 : ℝ) ^ e := by
    rw [← mul_zpow]
    norm_num
  rw [← Real.sqrt_mul_self (by positivity : (0 : ℝ) ≤ (2 : ℝ) ^ e), ← hfour,
    ← Real.sqrt_mul (by exact_mod_cast hscaled)]
  push_cast
  rw [div_mul_cancel₀ _ (by positivity)]

/-- Scaled by a power of four, a positive radicand has a root with `bits` bits before the
    point. -/
theorem root_scaled {bits : Nat} (hbits : 0 < bits) {q : Rat} (hq : 0 < q) {e : Int}
    (he : Rounding.binaryOrder q / 2 - (bits : Int) + 1 = e) :
    (2 : ℝ) ^ (bits - 1) ≤ √((q / (4 : Rat) ^ e : Rat) : ℝ) ∧
      √((q / (4 : Rat) ^ e : Rat) : ℝ) ≤ (2 : ℝ) ^ bits := by
  have hscale : (0 : Rat) < (4 : Rat) ^ e := by positivity
  have hfour : (4 : Rat) ^ e = (2 : Rat) ^ (2 * e) := by
    rw [zpow_mul]
    norm_num
  have hsquare : ∀ n : Nat,
      ((2 : Rat) ^ n) ^ 2 * (4 : Rat) ^ e = (2 : Rat) ^ (2 * n + 2 * e : Int) := by
    intro n
    rw [hfour, ← zpow_natCast, ← zpow_natCast, ← zpow_mul, ← zpow_add₀ two_ne_zero]
    congr 1
    push_cast
    ring
  constructor
  · refine Real.le_sqrt_of_sq_le ?_
    have hrat : ((2 : Rat) ^ (bits - 1)) ^ 2 ≤ q / (4 : Rat) ^ e := by
      rw [le_div_iff₀ hscale, hsquare]
      refine le_trans (zpow_le_zpow_right₀ (by norm_num) ?_) (Rounding.binaryOrder_le hq)
      omega
    exact_mod_cast hrat
  · refine Real.sqrt_le_iff.2 ⟨by positivity, ?_⟩
    have hrat : q / (4 : Rat) ^ e ≤ ((2 : Rat) ^ bits) ^ 2 := by
      rw [div_le_iff₀ hscale, hsquare]
      refine (Rounding.lt_binaryOrder hq).le.trans (zpow_le_zpow_right₀ (by norm_num) ?_)
      omega
    exact_mod_cast hrat

/-- The root of a rational that is not negative is the real root, rounded. -/
theorem isRoundedTo_rootToBits {bits : Nat} (hbits : 2 ≤ bits) {q : Rat} (hq : 0 ≤ q) :
    Rounding.IsRoundedTo bits √(q : ℝ) (rootToBits bits q) := by
  rcases hq.eq_or_lt with rfl | hpos
  · have hzero := Rounding.isRoundedTo_self (Rounding.significant_zero bits)
    simpa [rootToBits] using hzero
  · simp only [rootToBits, if_neg hpos.ne']
    generalize he : Rounding.binaryOrder q / 2 - (bits : Int) + 1 = e
    have hscaled : 0 ≤ q / (4 : Rat) ^ e := by positivity
    rcases nearestRoot_spec hscaled with ⟨hhalf, heven⟩
    rcases root_scaled (by omega) hpos he with ⟨hlow, hhigh⟩
    have hties : |((nearestRoot (q / (4 : Rat) ^ e) : Int) : ℝ) -
        √((q / (4 : Rat) ^ e : Rat) : ℝ)| = 1 / 2 →
        (nearestRoot (q / (4 : Rat) ^ e) : Int) % 2 = 0 := by
      intro htie
      have := heven (by exact_mod_cast htie)
      omega
    rw [sqrt_eq_scaled hpos.le e]
    exact_mod_cast Rounding.isRoundedTo_of_half hbits hlow hhigh (by exact_mod_cast hhalf) hties e

/-- Cutting a root off loses less than a unit of the last place. -/
theorem rootBelow_bounds {bits : Nat} (hbits : 0 < bits) {q : Rat} (hq : 0 ≤ q) :
    (rootBelow bits q : ℝ) ≤ √(q : ℝ) ∧
      √(q : ℝ) - rootBelow bits q ≤ √(q : ℝ) / 2 ^ (bits - 1) := by
  rcases hq.eq_or_lt with rfl | hpos
  · simp [rootBelow]
  · simp only [rootBelow, if_neg hpos.ne']
    generalize he : Rounding.binaryOrder q / 2 - (bits : Int) + 1 = e
    have hunit : (0 : ℝ) < (2 : ℝ) ^ e := by positivity
    have hscaled : 0 ≤ q / (4 : Rat) ^ e := by positivity
    rcases natSqrt_bounds hscaled with ⟨hlow, hhigh⟩
    have hlength := (root_scaled hbits hpos he).1
    rw [sqrt_eq_scaled hpos.le e]
    push_cast at hlow hhigh hlength ⊢
    refine ⟨mul_le_mul_of_nonneg_right hlow hunit.le, ?_⟩
    rw [← sub_mul, mul_div_right_comm]
    refine mul_le_mul_of_nonneg_right ?_ hunit.le
    -- The root has so many bits before the point that one is small compared with it.
    have hone : 1 ≤ √((q : ℝ) / (4 : ℝ) ^ e) / 2 ^ (bits - 1) :=
      (one_le_div (by positivity)).2 hlength
    linarith

/-- The square root of a rational that is not negative is accurate, whether it is rounded once
    or cut off before. -/
theorem root_error {q : Rat} (hq : 0 ≤ q) :
    |(root 60 q : ℝ) - √(q : ℝ)| ≤ √(q : ℝ) / 2 ^ 59 := by
  have hnonneg := Real.sqrt_nonneg (q : ℝ)
  simp only [root]
  split
  · -- There are more guard bits than it takes for the root to be close before it is rounded.
    rcases rootBelow_bounds (by decide : 0 < 60 + guardBits) hq with ⟨hbelow, hlost⟩
    have hclose : |(rootBelow (60 + guardBits) q : ℝ) - √(q : ℝ)| ≤
        |√(q : ℝ)| / 2 ^ (59 + 3) := by
      rw [abs_of_nonpos (by linarith), neg_sub, abs_of_nonneg hnonneg]
      exact hlost.trans (div_le_div_of_nonneg_left hnonneg (by positivity)
        (pow_le_pow_right₀ one_le_two (by decide)))
    have herror := Rounding.error_toBits_le hclose
    rwa [abs_of_nonneg hnonneg] at herror
  · have herror := (isRoundedTo_rootToBits (by decide : 2 ≤ 60) hq).error_le (by norm_num)
    rw [abs_of_nonneg hnonneg] at herror
    exact herror.trans (div_le_div_of_nonneg_left hnonneg (by positivity) (by norm_num))

end Elementary

end Reckoner
