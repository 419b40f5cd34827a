import Mathlib
import Reckoner.Number.Rounding

/-!
# How Far Rounding Moves a Number

Rounding to nearest never crosses an integer, and rounding to a number of bits
never leaves the binary order of a number except to the power of two at its end.
That is little, but it is enough to see that a rounded number has the sign of
the exact one and is about as large.

The order of a rational is found from two bit lengths and one comparison.
`binaryOrder_le` and `lt_binaryOrder` say that it is the right one, and
everything else about orders is derived from them.

## Theorems

* `le_halfEven`, `halfEven_le`: Rounding does not cross an integer.
* `binaryOrder_le`, `lt_binaryOrder`: A positive number lies in its order.
* `toBits_of_pos`: A rounded number stays in the order of the exact one.
* `toBits_nonneg`: So it keeps the sign.
-/

namespace Reckoner

namespace Rounding

theorem abs_eq (q : Rat) : q.abs = |q| := by
  rcases le_total 0 q with hq | hq
  · rw [Rat.abs_of_nonneg hq, abs_of_nonneg hq]
  · rw [Rat.abs_of_nonpos hq, abs_of_nonpos hq]

theorem halfEven_eq_floor_or (q : Rat) :
    halfEven q = ⌊q⌋ ∨ halfEven q = ⌊q⌋ + 1 ∧ (⌊q⌋ : Rat) < q := by
  have hfloor : q.floor = ⌊q⌋ := rfl
  by_cases hlow : q - (⌊q⌋ : Rat) < 1 / 2
  · left
    simp only [halfEven, hfloor, if_pos hlow]
  · have hlt : (⌊q⌋ : Rat) < q := by linarith
    simp only [halfEven, hfloor, if_neg hlow]
    split
    · exact .inr ⟨rfl, hlt⟩
    · split
      · exact .inl rfl
      · exact .inr ⟨rfl, hlt⟩

/-- Rounding does not cross an integer from above. -/
theorem le_halfEven {n : Int} {q : Rat} (h : (n : Rat) ≤ q) : n ≤ halfEven q := by
  have hfloor : n ≤ ⌊q⌋ := Int.le_floor.2 h
  rcases halfEven_eq_floor_or q with heq | ⟨heq, -⟩ <;> omega

/-- Rounding does not cross an integer from below. -/
theorem halfEven_le {n : Int} {q : Rat} (h : q ≤ (n : Rat)) : halfEven q ≤ n := by
  rcases halfEven_eq_floor_or q with heq | ⟨heq, hlt⟩
  · rw [heq]
    exact_mod_cast (Int.floor_le q).trans h
  · have hn : ⌊q⌋ < n := by exact_mod_cast hlt.trans_le h
    omega

section Order

variable {q : Rat}

theorem log2_bounds {n : Nat} (hn : n ≠ 0) :
    (2 : Rat) ^ (n.log2 : Int) ≤ n ∧ (n : Rat) < (2 : Rat) ^ ((n.log2 : Int) + 1) := by
  constructor
  · rw [zpow_natCast]
    exact_mod_cast Nat.log2_self_le hn
  · have hlt : n < 2 ^ (n.log2 + 1) := Nat.lt_log2_self
    have hcast : ((n.log2 : Int) + 1) = ((n.log2 + 1 : Nat) : Int) := by push_cast; rfl
    rw [hcast, zpow_natCast]
    exact_mod_cast hlt

/-- The bit lengths of numerator and denominator leave two orders. -/
theorem order_candidates (hq : 0 < q) :
    (2 : Rat) ^ ((q.num.natAbs.log2 : Int) - (q.den.log2 : Int) - 1) ≤ q ∧
      q < (2 : Rat) ^ ((q.num.natAbs.log2 : Int) - (q.den.log2 : Int) + 1) := by
  have hnum : 0 < q.num := Rat.num_pos.2 hq
  have hcast : ((q.num.natAbs : Nat) : Rat) = (q.num : Rat) :=
    (Int.cast_natCast _).symm.trans (congrArg Int.cast (Int.natAbs_of_nonneg hnum.le))
  rcases log2_bounds (n := q.num.natAbs) (by omega) with ⟨hnlow, hnhigh⟩
  rcases log2_bounds q.den_nz with ⟨hdlow, hdhigh⟩
  rw [hcast] at hnlow hnhigh
  have hden : (0 : Rat) < q.den := by exact_mod_cast q.den_pos
  have htwo : (2 : Rat) ≠ 0 := by norm_num
  have hvalue : q = q.num / q.den := (Rat.num_div_den q).symm
  -- Both parts are known up to a factor of two, so their quotient is up to one of four.
  constructor
  · calc (2 : Rat) ^ ((q.num.natAbs.log2 : Int) - (q.den.log2 : Int) - 1)
        = (2 : Rat) ^ (q.num.natAbs.log2 : Int) / (2 : Rat) ^ ((q.den.log2 : Int) + 1) := by
          rw [← zpow_sub₀ htwo]
          congr 1
          ring
      _ ≤ q.num / q.den := by
          apply div_le_div₀ (by exact_mod_cast hnum.le) hnlow hden hdhigh.le
      _ = q := hvalue.symm
  · calc q = q.num / q.den := hvalue
      _ < (2 : Rat) ^ ((q.num.natAbs.log2 : Int) + 1) / (2 : Rat) ^ (q.den.log2 : Int) := by
          apply div_lt_div₀ hnhigh hdlow (by positivity) (by positivity)
      _ = (2 : Rat) ^ ((q.num.natAbs.log2 : Int) - (q.den.log2 : Int) + 1) := by
          rw [← zpow_sub₀ htwo]
          congr 1
          ring

/-- A positive number is at least its order. -/
theorem binaryOrder_le (hq : 0 < q) : (2 : Rat) ^ binaryOrder q ≤ q := by
  simp only [binaryOrder]
  split
  · assumption
  · exact (order_candidates hq).1

/-- A positive number is less than the next order. -/
theorem lt_binaryOrder (hq : 0 < q) : q < (2 : Rat) ^ (binaryOrder q + 1) := by
  simp only [binaryOrder]
  split
  · exact (order_candidates hq).2
  · rename_i hlt
    rw [sub_add_cancel]
    exact not_le.1 hlt

theorem le_binaryOrder {k : Int} (h : (2 : Rat) ^ k ≤ q) : k ≤ binaryOrder q := by
  have hq : 0 < q := lt_of_lt_of_le (by positivity) h
  have hlt := (zpow_lt_zpow_iff_right₀ (by norm_num)).1 (h.trans_lt (lt_binaryOrder hq))
  omega

theorem binaryOrder_lt {k : Int} (hq : 0 < q) (h : q < (2 : Rat) ^ k) : binaryOrder q < k :=
  (zpow_lt_zpow_iff_right₀ (by norm_num)).1 ((binaryOrder_le hq).trans_lt h)

end Order

section Bits

variable {bits : Nat} {q : Rat}

/-- In units of the last bit kept, a number of the size of `q` lies between two
    powers of two. -/
theorem scaled_bounds (hbits : 0 < bits) (hq : 0 < q) :
    (((2 : Int) ^ (bits - 1) : Int) : Rat) ≤ q / (2 : Rat) ^ quantum bits none q ∧
      q / (2 : Rat) ^ quantum bits none q ≤ (((2 : Int) ^ bits : Int) : Rat) := by
  have htwo : (2 : Rat) ≠ 0 := by norm_num
  have hunit : (0 : Rat) < (2 : Rat) ^ quantum bits none q := by positivity
  rw [le_div_iff₀ hunit, div_le_iff₀ hunit]
  push_cast
  rw [← zpow_natCast, ← zpow_natCast, ← zpow_add₀ htwo, ← zpow_add₀ htwo]
  simp only [quantum]
  constructor
  · have hexp : ((bits - 1 : Nat) : Int) + (binaryOrder q - bits + 1) = binaryOrder q := by omega
    rw [hexp]
    exact binaryOrder_le hq
  · have hexp : (bits : Int) + (binaryOrder q - bits + 1) = binaryOrder q + 1 := by omega
    rw [hexp]
    exact (lt_binaryOrder hq).le

theorem unit_mul (hbits : 0 < bits) (q : Rat) :
    (((2 : Int) ^ (bits - 1) : Int) : Rat) * (2 : Rat) ^ quantum bits none q =
        (2 : Rat) ^ binaryOrder q ∧
      (((2 : Int) ^ bits : Int) : Rat) * (2 : Rat) ^ quantum bits none q =
        (2 : Rat) ^ (binaryOrder q + 1) := by
  have htwo : (2 : Rat) ≠ 0 := by norm_num
  push_cast
  rw [← zpow_natCast, ← zpow_natCast, ← zpow_add₀ htwo, ← zpow_add₀ htwo]
  simp only [quantum]
  constructor <;> congr 1 <;> omega

/-- A positive number is rounded within its order. -/
theorem toBits_of_pos (hbits : 0 < bits) (hq : 0 < q) :
    (2 : Rat) ^ binaryOrder q ≤ toBits bits q ∧
      toBits bits q ≤ (2 : Rat) ^ (binaryOrder q + 1) := by
  have hunit : (0 : Rat) < (2 : Rat) ^ quantum bits none q := by positivity
  rcases scaled_bounds hbits hq with ⟨hlow, hhigh⟩
  simp only [toBits, if_neg hq.ne', Rat.abs_of_nonneg hq.le]
  rw [← (unit_mul hbits q).1, ← (unit_mul hbits q).2]
  exact ⟨mul_le_mul_of_nonneg_right (by exact_mod_cast le_halfEven hlow) hunit.le,
    mul_le_mul_of_nonneg_right (by exact_mod_cast halfEven_le hhigh) hunit.le⟩

/-- A number that is not negative does not become negative. -/
theorem toBits_nonneg (hbits : 0 < bits) (hq : 0 ≤ q) : 0 ≤ toBits bits q := by
  rcases hq.eq_or_lt with rfl | hq
  · rw [toBits_zero]
  · exact le_trans (by positivity) (toBits_of_pos hbits hq).1

end Bits

end Rounding

end Reckoner
