import Mathlib
import Reckoner.Number.Decimal

/-!
# The Decimal That Is Shown

What is known of the shortest decimal without asking which decimals read back.
The search looks at two neighbours of the exact decimal on every coarser grid, so
whatever its test accepts, the decimal it comes to is not zero, at most twice the
exact one, and has no more decimal places (`Near`). Dropping zeros at the end
keeps all of that.

For a finite double this bounds the rational that a function is applied to. It
has an order of a few thousand at most, and if it is less than one it stays away
from it, because a double that close to one has few decimal places.

## Main definitions

* `Decimal.Near`: Not zero, at most twice as large, no more decimal places.
* `Moderate`: Of an order that doubles have, and not close to one from below.

## Theorems

* `pick_near`, `shortest_near`, `trim_near`: What the search makes of a decimal is
  near it.
* `toRat_ofBinary`: The exact decimal is exact.
* `seen?_eq_some`: What a finite double is shown as.
* `seen_moderate`: How large that is, and how far from one.
-/

namespace Reckoner

namespace Decimal

/-- Not zero, at most twice the given decimal, and on no finer grid. -/
structure Near (d r : Decimal) : Prop where
  positive : 0 < r.coefficient
  coarser : d.exponent ≤ r.exponent
  toRat_le : r.toRat ≤ 2 * d.toRat

theorem toRat_nonneg (d : Decimal) : 0 ≤ d.toRat := by
  unfold toRat
  positivity

theorem near_refl {d : Decimal} (h : 0 < d.coefficient) : Near d d :=
  ⟨h, le_refl _, by linarith [d.toRat_nonneg]⟩

/-- Cutting off digits makes a decimal no larger. -/
theorem toRat_truncate_le (d : Decimal) (k : Nat) : (d.truncate k).toRat ≤ d.toRat := by
  have hten : (10 : Rat) ≠ 0 := by norm_num
  have hcut : ((d.coefficient / Nat.pow 10 k : Nat) : Rat) * (10 : Rat) ^ k ≤ d.coefficient := by
    exact_mod_cast Nat.div_mul_le_self d.coefficient (Nat.pow 10 k)
  simp only [truncate, toRat]
  rw [zpow_add₀ hten, zpow_natCast]
  calc ((d.coefficient / Nat.pow 10 k : Nat) : Rat) * ((10 : Rat) ^ d.exponent * (10 : Rat) ^ k)
      = ((d.coefficient / Nat.pow 10 k : Nat) : Rat) * (10 : Rat) ^ k *
          (10 : Rat) ^ d.exponent := by ring
    _ ≤ d.coefficient * (10 : Rat) ^ d.exponent :=
        mul_le_mul_of_nonneg_right hcut (by positivity)

theorem toRat_next_le {d : Decimal} (h : 0 < d.coefficient) : d.next.toRat ≤ 2 * d.toRat := by
  have hone : (1 : Rat) ≤ d.coefficient := by exact_mod_cast h
  simp only [next, toRat]
  push_cast
  rw [← mul_assoc]
  exact mul_le_mul_of_nonneg_right (by linarith) (by positivity)

/-- Both neighbours on a coarser grid are near, if the grid is not so coarse that
    no digit is left. -/
theorem pick_near {accepts : Decimal → Bool} {d r : Decimal} {k : Nat}
    (hk : Nat.pow 10 k ≤ d.coefficient) (h : pick accepts d k = some r) : Near d r := by
  have hpos : 0 < (d.truncate k).coefficient := Nat.div_pos hk (Nat.pow_pos (by decide))
  have hcoarser : d.exponent ≤ (d.truncate k).exponent := by
    simp only [truncate]
    omega
  have hle := toRat_truncate_le d k
  -- A digit is left after the cut, so one unit more doubles it at most.
  have hbelow : Near d (d.truncate k) := ⟨hpos, hcoarser, by linarith [d.toRat_nonneg]⟩
  have habove : Near d (d.truncate k).next :=
    ⟨Nat.succ_pos _, hcoarser, (toRat_next_le hpos).trans (by linarith)⟩
  simp only [pick] at h
  split at h
  · split at h
    · split at h
      · cases h
        exact hbelow
      · cases h
        exact habove
    · cases h
      exact hbelow
  · split at h
    · cases h
      exact habove
    · cases h

theorem shortestFrom_near {accepts : Decimal → Bool} {d : Decimal} {k : Nat}
    (hk : Nat.pow 10 k ≤ d.coefficient) : Near d (shortestFrom accepts d k) := by
  induction k with
  | zero => exact near_refl hk
  | succ k ih =>
      have hpow : Nat.pow 10 k ≤ Nat.pow 10 (k + 1) := Nat.pow_le_pow_right (by decide) (by omega)
      simp only [shortestFrom]
      cases hpick : pick accepts d (k + 1) with
      | none => exact ih (hpow.trans hk)
      | some r => exact pick_near hk hpick

/-- The leading digit alone is at most the whole coefficient. -/
theorem pow_digits_le {d : Decimal} (h : 0 < d.coefficient) :
    Nat.pow 10 (d.digits.length - 1) ≤ d.coefficient := by
  by_cases hone : d.digits.length - 1 = 0
  · rw [hone]
    exact h
  · by_contra hlt
    have hshort := (Nat.length_toDigits_le_iff (by decide) (by omega)).2 (not_le.1 hlt)
    simp only [digits] at hshort hone
    omega

theorem shortest_near {accepts : Decimal → Bool} {d : Decimal} (h : 0 < d.coefficient) :
    Near d (shortest accepts d) := shortestFrom_near (pow_digits_le h)

theorem trimFrom_near {d r : Decimal} (h : Near d r) (fuel : Nat) : Near d (r.trimFrom fuel) := by
  induction fuel generalizing r with
  | zero => exact h
  | succ fuel ih =>
      simp only [trimFrom]
      split
      · rename_i hzero
        -- A coefficient that ends in a zero, and is not zero, has a digit before it.
        have hpos := h.positive
        refine ih ⟨?_, ?_, (toRat_truncate_le r 1).trans h.toRat_le⟩
        · exact Nat.div_pos (by change 10 ^ 1 ≤ _; omega) (by decide)
        · have hcoarser := h.coarser
          simp only [truncate]
          omega
      · exact h

theorem trim_near {d r : Decimal} (h : Near d r) : Near d r.trim := trimFrom_near h _

theorem exponent_ofBinary (m : Nat) (e : Int) : min 0 e ≤ (ofBinary m e).exponent := by
  simp only [ofBinary]
  split
  · exact min_le_left 0 e
  · exact min_le_right 0 e

theorem coefficient_ofBinary {m : Nat} (e : Int) (h : 0 < m) : 0 < (ofBinary m e).coefficient := by
  simp only [ofBinary]
  split
  · exact Nat.mul_pos h (Nat.pow_pos (by decide))
  · exact Nat.mul_pos h (Nat.pow_pos (by decide))

/-- The exact decimal is exact. -/
theorem toRat_ofBinary (m : Nat) (e : Int) : (ofBinary m e).toRat = Double.magnitude m e := by
  simp only [ofBinary, Double.magnitude]
  split
  · rename_i he
    simp only [toRat, zpow_zero, mul_one, Nat.pow_eq]
    push_cast
    rw [← zpow_natCast, Int.toNat_of_nonneg he]
  · rename_i he
    rcases Int.exists_eq_neg_ofNat (by omega : e ≤ 0) with ⟨n, rfl⟩
    simp only [toRat, neg_neg, Int.toNat_natCast, zpow_neg, zpow_natCast, Nat.pow_eq]
    push_cast
    rw [show (10 : Rat) ^ n = 5 ^ n * 2 ^ n by rw [← mul_pow]; norm_num]
    field_simp

/-- In units of a decimal place that it does not go beyond, a decimal is an integer. -/
theorem exists_toRat_mul_pow {d : Decimal} {k : Nat} (hk : -(k : Int) ≤ d.exponent) :
    ∃ n : Nat, d.toRat * (10 : Rat) ^ k = n := by
  rcases Int.eq_ofNat_of_zero_le (by omega : 0 ≤ d.exponent + k) with ⟨n, hn⟩
  refine ⟨d.coefficient * 10 ^ n, ?_⟩
  simp only [toRat]
  push_cast
  rw [mul_assoc, ← zpow_natCast, ← zpow_add₀ (by norm_num : (10 : Rat) ≠ 0), hn]
  simp

/-- A decimal below one that has few decimal places is not close to one. -/
theorem le_one_sub_toRat {d : Decimal} {k : Nat} (hk : -(k : Int) ≤ d.exponent)
    (hlt : d.toRat < 1) : ((10 : Rat) ^ k)⁻¹ ≤ 1 - d.toRat := by
  have hpow : (0 : Rat) < (10 : Rat) ^ k := by positivity
  rcases exists_toRat_mul_pow hk with ⟨n, hn⟩
  -- In units of the last place both numbers are integers.
  have hcount : n + 1 ≤ 10 ^ k := by
    have hlt' := mul_lt_mul_of_pos_right hlt hpow
    rw [hn, one_mul] at hlt'
    exact_mod_cast hlt'
  have hcast : (n : Rat) + 1 ≤ (10 : Rat) ^ k := by exact_mod_cast hcount
  rw [inv_le_iff_one_le_mul₀ hpow]
  linarith

end Decimal

/-- Of a positive rational: about as large as some double, and not close to one
    from below. -/
structure Moderate (q : Rat) : Prop where
  low : (2 : Rat) ^ (-4296 : Int) ≤ q
  high : q < (2 : Rat) ^ (1025 : Int)
  apart : q < 1 → ((10 : Rat) ^ 55)⁻¹ ≤ 1 - q

namespace Double

/-- What a finite number other than zero is shown as. -/
theorem seen?_eq_some {s : Bool} {m : Nat} {e : Int} {h : Canonical m e} {q : Rat} (hm : 0 < m)
    (hq : (finite s m e h).seen? = some q) :
    ∃ d, Decimal.Near (Decimal.ofBinary m e) d ∧ q = signed s d.toRat := by
  cases hq
  exact ⟨_, Decimal.trim_near (Decimal.shortest_near (Decimal.coefficient_ofBinary e hm)), rfl⟩

/-- What is shown as a half or more has no more decimal places than such a number. -/
theorem exponent_of_half_le {m : Nat} {e : Int} {d : Decimal} (h : Canonical m e)
    (hnear : Decimal.Near (Decimal.ofBinary m e) d) (hhalf : 1 / 2 ≤ d.toRat) :
    -55 ≤ d.exponent := by
  have hvalue := hnear.toRat_le
  have hcoarser := (Decimal.exponent_ofBinary m e).trans hnear.coarser
  have hsignificand : (m : Rat) < (2 : Rat) ^ (53 : Int) := by exact_mod_cast h.1
  rw [Decimal.toRat_ofBinary, magnitude] at hvalue
  -- The number itself is a quarter at least, so its significand reaches up to there.
  suffices hexp : -55 ≤ e by omega
  by_contra hexp
  have hpow : (2 : Rat) ^ e ≤ (2 : Rat) ^ (-56 : Int) :=
    zpow_le_zpow_right₀ (by norm_num) (by omega)
  have hsmall : (m : Rat) * (2 : Rat) ^ e ≤ (2 : Rat) ^ (53 : Int) * (2 : Rat) ^ (-56 : Int) :=
    mul_le_mul hsignificand.le hpow (by positivity) (by positivity)
  norm_num at hsmall
  linarith

/-- What a positive number is shown as has a moderate order, and if it is less
    than one, it is not close to one. -/
theorem seen_moderate {m : Nat} {e : Int} {h : Canonical m e} {q : Rat} (hm : 0 < m)
    (hq : (finite false m e h).seen? = some q) : Moderate q := by
  rcases seen?_eq_some hm hq with ⟨d, hnear, rfl⟩
  have hcanonical := h
  rcases h with ⟨hsmall, hlow, hhigh, -⟩
  have hvalue := hnear.toRat_le
  have hcoarser := (Decimal.exponent_ofBinary m e).trans hnear.coarser
  have hsignificand : (m : Rat) < (2 : Rat) ^ (53 : Int) := by exact_mod_cast hsmall
  rw [Decimal.toRat_ofBinary] at hvalue
  simp only [signed, Bool.false_eq_true, if_false, magnitude] at hvalue ⊢
  refine ⟨?_, ?_, fun hlt => ?_⟩
  · -- No double has more than 1074 decimal places, and what is shown has no more.
    have hone : (1 : Rat) ≤ d.coefficient := by exact_mod_cast hnear.positive
    calc (2 : Rat) ^ (-4296 : Int) = ((2 : Rat) ^ (4 : Int)) ^ (-1074 : Int) := by
          rw [← zpow_mul]
          norm_num
      _ ≤ (10 : Rat) ^ (-1074 : Int) := by
          rw [zpow_neg, zpow_neg]
          exact inv_anti₀ (by positivity)
            (zpow_le_zpow_left₀ (by norm_num) (by norm_num) (by norm_num))
      _ ≤ (10 : Rat) ^ d.exponent := zpow_le_zpow_right₀ (by norm_num) (by omega)
      _ ≤ d.toRat := le_mul_of_one_le_left (by positivity) hone
  · calc d.toRat ≤ 2 * (m * (2 : Rat) ^ e) := hvalue
      _ < 2 * ((2 : Rat) ^ (53 : Int) * (2 : Rat) ^ e) := by
          have := mul_lt_mul_of_pos_right hsignificand (by positivity : (0 : Rat) < 2 ^ e)
          linarith
      _ ≤ 2 * ((2 : Rat) ^ (53 : Int) * (2 : Rat) ^ (971 : Int)) := by
          gcongr
          norm_num
      _ = (2 : Rat) ^ (1025 : Int) := by
          rw [← zpow_add₀ two_ne_zero, ← zpow_one_add₀ two_ne_zero]
          rfl
  · by_cases hhalf : d.toRat < 1 / 2
    · have : ((10 : Rat) ^ 55)⁻¹ ≤ 1 / 2 := by norm_num
      linarith
    · exact Decimal.le_one_sub_toRat (exponent_of_half_le hcanonical hnear (not_lt.1 hhalf)) hlt

/-- A zero is shown as zero, whatever its sign. -/
theorem seen?_zero (s : Bool) (e : Int) (h : Canonical 0 e) :
    (finite s 0 e h).seen? = some 0 := by
  have hzero : (Decimal.ofBinary 0 e).coefficient = 0 := by
    simp only [Decimal.ofBinary]
    split <;> exact Nat.zero_mul _
  have hlength : (Decimal.ofBinary 0 e).digits.length - 1 = 0 := by
    simp [Decimal.digits, hzero]
  simp only [seen?, decimal?, Option.map_some, Decimal.shortest, hlength, Decimal.shortestFrom,
    Decimal.trim, Decimal.trimFrom, Decimal.toRat, hzero]
  cases s <;> simp [signBit, signed]

end Double

end Reckoner
