import Mathlib
import Reckoner.Proofs.Number.Nearest

/-!
# Rounding Real Numbers to a Mantissa

Values of functions are real numbers, and they are rounded to a mantissa of so many bits before
they become doubles. What that comes to is said here without the way in which it is computed:
of all rationals with such a mantissa it is the nearest one, and of two equally near ones that
whose mantissa is even (`IsRoundedTo`). The exponent is not bounded, so nothing overflows and
nothing is lost below.

An even mantissa is one that a bit less is enough for. Between two numbers with a mantissa of a
bit less there is always one with the full length, halfway between the one with the finer unit
and its neighbour. So a real number is rounded to one rational only, and rounding keeps the
order.

## Main definitions

* `Significant`: The rationals with a mantissa of so many bits.
* `IsRoundedTo`: A real number and the rational that it is rounded to.

## Theorems

* `Significant.exists_between`: Between two even ones there is another one.
* `IsRoundedTo.mono`, `IsRoundedTo.unique`: It keeps the order, so there is only one.
* `IsRoundedTo.between`: Between numbers that are rounded alike nothing else happens.
* `isRoundedTo_self`: What has such a mantissa is not moved.
* `isRoundedTo_of_half`: In units of the last place it is the nearest integer.
* `isRoundedTo_toBits`: So rounding to a number of bits comes to it.
* `IsRoundedTo.error_le`: How much is lost.
-/

namespace Reckoner

namespace Rounding

/-- The number has a mantissa of so many bits: it is an integer of that length times a power
    of two. -/
def Significant (bits : Nat) (v : Rat) : Prop :=
  ∃ m e : Int, |m| < 2 ^ bits ∧ v = (m : Rat) * (2 : Rat) ^ e

/-- The rational is the real number rounded to so many bits. Nothing with such a mantissa is
    nearer, and if another is as near, this one has an even mantissa: a bit less is enough
    for it. -/
structure IsRoundedTo (bits : Nat) (r : ℝ) (v : Rat) : Prop where
  significant : Significant bits v
  nearest : ∀ w, Significant bits w → |(v : ℝ) - r| ≤ |(w : ℝ) - r|
  even : ∀ w, Significant bits w → w ≠ v → |(w : ℝ) - r| = |(v : ℝ) - r| →
    Significant (bits - 1) v

section Mantissas

variable {bits bits' : Nat} {v w : Rat}

theorem significant_zero (bits : Nat) : Significant bits 0 := ⟨0, 0, by positivity, by simp⟩

theorem Significant.neg (h : Significant bits v) : Significant bits (-v) := by
  rcases h with ⟨m, e, hm, rfl⟩
  exact ⟨-m, e, by rwa [abs_neg], by push_cast; ring⟩

/-- A power of two has a mantissa of one bit. -/
theorem significant_zpow (hbits : 0 < bits) (e : Int) : Significant bits ((2 : Rat) ^ e) :=
  ⟨1, e, by rw [abs_one]; exact one_lt_pow₀ (by norm_num) hbits.ne', by simp⟩

theorem significant_one (hbits : 0 < bits) : Significant bits 1 := by
  simpa using significant_zpow hbits 0

theorem significant_half (hbits : 0 < bits) : Significant bits (1 / 2) := by
  simpa using significant_zpow hbits (-1)

/-- A number with a coarser unit is not reached half a unit further on. -/
theorem half_unit_lt {m n e f : Int} (hle : e ≤ f)
    (hlt : (m : Rat) * (2 : Rat) ^ e < (n : Rat) * (2 : Rat) ^ f) :
    ((2 * m + 1 : Int) : Rat) * (2 : Rat) ^ (e - 1) < (n : Rat) * (2 : Rat) ^ f := by
  have hunit : (0 : Rat) < (2 : Rat) ^ e := by positivity
  rcases Int.eq_ofNat_of_zero_le (sub_nonneg.2 hle) with ⟨d, hd⟩
  have hvalue : (n : Rat) * (2 : Rat) ^ f = ((n * 2 ^ d : Int) : Rat) * (2 : Rat) ^ e := by
    rw [show f = (d : Int) + e by omega, zpow_add₀ two_ne_zero, zpow_natCast]
    push_cast
    ring
  rw [hvalue] at hlt ⊢
  have hcount : m + 1 ≤ n * 2 ^ d := by
    have hint := lt_of_mul_lt_mul_right hlt hunit.le
    exact_mod_cast hint
  have hnext : (m : Rat) + 1 ≤ ((n * 2 ^ d : Int) : Rat) := by exact_mod_cast hcount
  calc ((2 * m + 1 : Int) : Rat) * (2 : Rat) ^ (e - 1) = ((m : Rat) + 1 / 2) * (2 : Rat) ^ e := by
        rw [zpow_sub_one₀ two_ne_zero]
        push_cast
        ring
    _ < ((n * 2 ^ d : Int) : Rat) * (2 : Rat) ^ e :=
        mul_lt_mul_of_pos_right (by linarith) hunit

/-- Half a unit further on is a number with one more bit. -/
theorem exists_half_unit (hbits : 0 < bits) {m n e f : Int} (hm : |m| < 2 ^ (bits - 1))
    (hle : e ≤ f) (hlt : (m : Rat) * (2 : Rat) ^ e < (n : Rat) * (2 : Rat) ^ f) :
    ∃ u, Significant bits u ∧ (m : Rat) * (2 : Rat) ^ e < u ∧ u < (n : Rat) * (2 : Rat) ^ f := by
  refine ⟨_, ⟨2 * m + 1, e - 1, ?_, rfl⟩, ?_, half_unit_lt hle hlt⟩
  · have hdouble : (2 : Int) ^ bits = 2 * 2 ^ (bits - 1) := by
      rw [← pow_succ', Nat.sub_one_add_one hbits.ne']
    rw [abs_lt] at hm ⊢
    omega
  · have hunit : (0 : Rat) < (2 : Rat) ^ e := by positivity
    rw [zpow_sub_one₀ two_ne_zero]
    push_cast
    linarith

/-- Between two numbers with a bit less there is one with the full length. -/
theorem Significant.exists_between (hbits : 0 < bits) (hv : Significant (bits - 1) v)
    (hw : Significant (bits - 1) w) (hlt : v < w) :
    ∃ u, Significant bits u ∧ v < u ∧ u < w := by
  rcases hv with ⟨m, e, hm, rfl⟩
  rcases hw with ⟨n, f, hn, rfl⟩
  rcases le_total e f with hle | hle
  · exact exists_half_unit hbits hm hle hlt
  · -- The larger one has the finer unit. With the signs changed it is the smaller one.
    have hopposite : ((-n : Int) : Rat) * (2 : Rat) ^ f < ((-m : Int) : Rat) * (2 : Rat) ^ e := by
      push_cast
      linarith
    rcases exists_half_unit hbits (by rwa [abs_neg]) hle hopposite with ⟨u, hu, hlow, hhigh⟩
    push_cast at hlow hhigh
    exact ⟨-u, hu.neg, by linarith, by linarith⟩

end Mantissas

section Uniqueness

variable {bits : Nat} {r r' : ℝ} {v w : Rat}

/-- What is not nearer than a number beyond it is halfway there at most. -/
theorem IsRoundedTo.two_mul_le (h : IsRoundedTo bits r v) (hw : Significant bits w) (hlt : v < w) :
    2 * r ≤ v + w := by
  have hnearest := h.nearest w hw
  have hreal : (v : ℝ) < w := by exact_mod_cast hlt
  by_contra hmiddle
  rw [not_le] at hmiddle
  rw [abs_of_nonpos (by linarith : (v : ℝ) - r ≤ 0)] at hnearest
  rcases abs_cases ((w : ℝ) - r) with ⟨heq, -⟩ | ⟨heq, -⟩ <;> linarith

theorem IsRoundedTo.neg (h : IsRoundedTo bits r v) : IsRoundedTo bits (-r) (-v) := by
  have hdistance : ∀ u : Rat, |((-u : Rat) : ℝ) - -r| = |(u : ℝ) - r| := by
    intro u
    rw [← abs_neg]
    push_cast
    congr 1
    ring
  have hopposite : ∀ u : Rat, |(u : ℝ) - -r| = |((-u : Rat) : ℝ) - r| := fun u => by
    rw [← hdistance (-u), neg_neg]
  refine ⟨h.significant.neg, fun u hu => ?_, fun u hu hne htie => ?_⟩
  · rw [hdistance, hopposite]
    exact h.nearest (-u) hu.neg
  · rw [hdistance, hopposite] at htie
    exact (h.even (-u) hu.neg (fun heq => hne (by rw [← heq, neg_neg])) htie).neg

theorem IsRoundedTo.le_two_mul (h : IsRoundedTo bits r v) (hw : Significant bits w) (hlt : w < v) :
    w + v ≤ 2 * r := by
  have hmiddle := h.neg.two_mul_le hw.neg (neg_lt_neg hlt)
  push_cast at hmiddle
  linarith

/-- A larger number is not rounded to a smaller one. -/
theorem IsRoundedTo.mono (hbits : 0 < bits) (h : IsRoundedTo bits r v) (h' : IsRoundedTo bits r' w)
    (hle : r ≤ r') : v ≤ w := by
  by_contra hlt
  rw [not_le] at hlt
  -- Both numbers are halfway between the two, so both of these are even.
  have hlow := h.le_two_mul h'.significant hlt
  have hhigh := h'.two_mul_le h.significant hlt
  have hmiddle : |(w : ℝ) - r| = |(v : ℝ) - r| := by
    rw [show (w : ℝ) - r = -((v : ℝ) - r) by linarith, abs_neg]
  have hmiddle' : |(v : ℝ) - r'| = |(w : ℝ) - r'| := by
    rw [show (v : ℝ) - r' = -((w : ℝ) - r') by linarith, abs_neg]
  have hv := h.even w h'.significant hlt.ne hmiddle
  have hw := h'.even v h.significant hlt.ne' hmiddle'
  rcases hw.exists_between hbits hv hlt with ⟨u, hu, hwu, huv⟩
  have := h.le_two_mul hu huv
  have hreal : (w : ℝ) < u := by exact_mod_cast hwu
  linarith

/-- A real number is rounded to one number only. -/
theorem IsRoundedTo.unique (hbits : 0 < bits) (h : IsRoundedTo bits r v)
    (h' : IsRoundedTo bits r w) : v = w :=
  le_antisymm (h.mono hbits h' le_rfl) (h'.mono hbits h le_rfl)

/-- What is between two numbers that are rounded alike is rounded like them. -/
theorem IsRoundedTo.between {s : ℝ} (h : IsRoundedTo bits r v) (h' : IsRoundedTo bits r' v)
    (hlow : r ≤ s) (hhigh : s ≤ r') : IsRoundedTo bits s v := by
  refine ⟨h.significant, fun w hw => ?_, fun w hw hne htie => ?_⟩
  · rcases lt_trichotomy w v with hlt | rfl | hlt
    · have hmiddle := h.le_two_mul hw hlt
      have hreal : (w : ℝ) < v := by exact_mod_cast hlt
      rw [abs_of_nonpos (by linarith : (w : ℝ) - s ≤ 0), abs_le]
      constructor <;> linarith
    · exact le_rfl
    · have hmiddle := h'.two_mul_le hw hlt
      have hreal : (v : ℝ) < w := by exact_mod_cast hlt
      rw [abs_of_nonneg (by linarith : 0 ≤ (w : ℝ) - s), abs_le]
      constructor <;> linarith
  · have hopposite : (w : ℝ) - s = -((v : ℝ) - s) := by
      refine (abs_eq_abs.1 htie).resolve_left fun heq => hne ?_
      exact_mod_cast sub_left_injective heq
    -- A tie is one for the number on its side already, which cannot be further inside.
    rcases lt_or_gt_of_ne hne with hlt | hlt
    · have hmiddle := h.le_two_mul hw hlt
      obtain rfl : r = s := by linarith
      exact h.even w hw hne htie
    · have hmiddle := h'.two_mul_le hw hlt
      obtain rfl : r' = s := by linarith
      exact h'.even w hw hne htie

/-- What has such a mantissa is not moved. -/
theorem isRoundedTo_self (h : Significant bits v) : IsRoundedTo bits v v := by
  refine ⟨h, fun w _ => ?_, fun w _ hne htie => absurd ?_ hne⟩
  · rw [sub_self, abs_zero]
    exact abs_nonneg _
  · rw [sub_self, abs_zero, abs_eq_zero, sub_eq_zero] at htie
    exact_mod_cast htie

end Uniqueness

section Existence

variable {bits : Nat} {n e : Int} {x : ℝ} {v : Rat}

/-- An integer that is half a unit away at most is nearest, and a tie is one at exactly half
    a unit. -/
theorem abs_sub_le_of_half (hhalf : |(n : ℝ) - x| ≤ 1 / 2) (k : Int) :
    |(n : ℝ) - x| ≤ |(k : ℝ) - x| ∧
      (k ≠ n → |(k : ℝ) - x| = |(n : ℝ) - x| → |(n : ℝ) - x| = 1 / 2) := by
  by_cases hk : k = n
  · rw [hk]
    exact ⟨le_rfl, fun hne => absurd rfl hne⟩
  · have hint : (1 : Int) ≤ |k - n| := Int.one_le_abs (sub_ne_zero.2 hk)
    have hunit : (1 : ℝ) ≤ |(k : ℝ) - n| := by exact_mod_cast hint
    have htriangle := abs_sub_le (k : ℝ) x n
    rw [abs_sub_comm x] at htriangle
    exact ⟨by linarith, fun _ htie => by linarith⟩

/-- A number with such a mantissa is a multiple of the unit, or it is smaller than any that
    has the full length in this unit. -/
theorem Significant.multiple_or_lt (hbits : 0 < bits) (h : Significant bits v) (e : Int) :
    (∃ k : Int, v = (k : Rat) * (2 : Rat) ^ e) ∨ v < (2 : Rat) ^ (bits - 1) * (2 : Rat) ^ e := by
  rcases h with ⟨m, f, hm, rfl⟩
  rcases le_or_gt e f with hle | hlt
  · rcases Int.eq_ofNat_of_zero_le (sub_nonneg.2 hle) with ⟨d, hd⟩
    refine .inl ⟨m * 2 ^ d, ?_⟩
    rw [show f = (d : Int) + e by omega, zpow_add₀ two_ne_zero, zpow_natCast]
    push_cast
    ring
  · have hsmall : (m : Rat) < (2 : Rat) ^ bits := by exact_mod_cast (le_abs_self m).trans_lt hm
    refine .inr ?_
    calc (m : Rat) * (2 : Rat) ^ f < (2 : Rat) ^ bits * (2 : Rat) ^ f :=
          mul_lt_mul_of_pos_right hsmall (by positivity)
      _ ≤ (2 : Rat) ^ bits * (2 : Rat) ^ (e - 1) :=
          mul_le_mul_of_nonneg_left (zpow_le_zpow_right₀ (by norm_num) (by omega)) (by positivity)
      _ = (2 : Rat) ^ (bits - 1) * (2 : Rat) ^ e := by
          rw [zpow_sub_one₀ two_ne_zero, ← Nat.sub_one_add_one hbits.ne', pow_succ]
          simp only [Nat.add_sub_cancel]
          ring

/-- Two numbers with such a mantissa are not close to each other, compared with their size. The
    nearest one may be below a power of two, where the unit is finer. -/
theorem Significant.apart (hbits : 0 < bits) {w : Rat} (hv : Significant bits v)
    (hw : Significant bits w) (hpos : 0 < v) (hne : w ≠ v) : v / 2 ^ bits ≤ |w - v| := by
  obtain ⟨n, rfl⟩ : ∃ n, bits = n + 1 := ⟨bits - 1, by omega⟩
  generalize he : binaryOrder v - n = e
  have hunit : (0 : Rat) < (2 : Rat) ^ e := by positivity
  have hlow : (2 : Rat) ^ n * (2 : Rat) ^ e ≤ v := by
    rw [← zpow_natCast, ← zpow_add₀ two_ne_zero]
    exact le_trans (le_of_eq (by congr 1; omega)) (binaryOrder_le hpos)
  have hhigh : v < (2 : Rat) ^ (n + 1) * (2 : Rat) ^ e := by
    rw [← zpow_natCast, ← zpow_add₀ two_ne_zero]
    exact (lt_binaryOrder hpos).trans_le (le_of_eq (by congr 1; push_cast; omega))
  have hmultiple : ∃ k : Int, v = (k : Rat) * (2 : Rat) ^ e :=
    (hv.multiple_or_lt hbits e).resolve_right (not_lt.2 hlow)
  rw [div_le_iff₀ (by positivity)]
  rcases hw.multiple_or_lt hbits e with ⟨j, hj⟩ | hbelow
  · -- Both are multiples of the unit.
    rcases hmultiple with ⟨k, hk⟩
    have hcount : (1 : Int) ≤ |j - k| := Int.one_le_abs fun heq => hne (by
      rw [hj, hk, sub_eq_zero.1 heq])
    have hone : (1 : Rat) ≤ |(j : Rat) - k| := by exact_mod_cast hcount
    have hapart : (2 : Rat) ^ e ≤ |w - v| := by
      rw [hj, hk, ← sub_mul, abs_mul, abs_of_pos hunit]
      exact le_mul_of_one_le_left hunit.le hone
    calc v ≤ (2 : Rat) ^ e * 2 ^ (n + 1) := by linarith
      _ ≤ |w - v| * 2 ^ (n + 1) := mul_le_mul_of_nonneg_right hapart (by positivity)
  · simp only [Nat.add_sub_cancel] at hbelow
    rw [abs_sub_comm, abs_of_pos (by linarith)]
    have hfiner : (2 : Rat) ^ n * (2 : Rat) ^ e = 2 ^ (n + 1) * (2 : Rat) ^ (e - 1) := by
      rw [zpow_sub_one₀ two_ne_zero]
      ring
    have hpower : (1 : Rat) ≤ 2 ^ n := one_le_pow₀ (by norm_num)
    rw [hfiner] at hlow hbelow
    rcases hw.multiple_or_lt hbits (e - 1) with ⟨j, hj⟩ | hfar
    · -- The other one is below the power of two, by half a unit at least.
      have hhalf : w + (2 : Rat) ^ (e - 1) ≤ 2 ^ (n + 1) * (2 : Rat) ^ (e - 1) := by
        have hlt : (j : Rat) < 2 ^ (n + 1) := by
          rw [hj] at hbelow
          exact lt_of_mul_lt_mul_right hbelow (by positivity)
        have hint : j + 1 ≤ 2 ^ (n + 1) := by exact_mod_cast hlt
        have hcount : (j : Rat) + 1 ≤ 2 ^ (n + 1) := by exact_mod_cast hint
        rw [hj, ← add_one_mul]
        exact mul_le_mul_of_nonneg_right hcount (by positivity)
      have hrest := mul_le_mul_of_nonneg_left (by linarith : (1 : Rat) ≤ 2 ^ n * 2)
        (sub_nonneg.2 hlow)
      have hscaled := mul_le_mul_of_nonneg_right hhalf (by positivity : (0 : Rat) ≤ 2 ^ (n + 1))
      rw [← pow_succ] at hrest
      linarith
    · -- It is not even half as large.
      simp only [Nat.add_sub_cancel] at hfar
      have hhalf : v / 2 ≤ v - w := by
        rw [pow_succ] at hlow
        linarith
      calc v ≤ v / 2 * 2 ^ (n + 1) := by
            rw [pow_succ]
            nlinarith
        _ ≤ (v - w) * 2 ^ (n + 1) := mul_le_mul_of_nonneg_right hhalf (by positivity)

/-- An integer of the full length, or the power of two after it, has such a mantissa. -/
theorem significant_of_le (hbits : 0 < bits) (hpos : 0 ≤ n) (hle : n ≤ 2 ^ bits) (e : Int) :
    Significant bits ((n : Rat) * (2 : Rat) ^ e) := by
  rcases hle.lt_or_eq with hlt | rfl
  · exact ⟨n, e, by rwa [abs_of_nonneg hpos], rfl⟩
  · have hpower :
        (((2 : Int) ^ bits : Int) : Rat) * (2 : Rat) ^ e = (2 : Rat) ^ (bits + e : Int) := by
      rw [zpow_add₀ two_ne_zero, zpow_natCast]
      push_cast
      rfl
    rw [hpower]
    exact significant_zpow hbits _

/-- A number that has the full length in some unit is rounded to the nearest multiple of the
    unit, and a tie to an even one. -/
theorem isRoundedTo_of_half (hbits : 2 ≤ bits) (hlow : (2 : ℝ) ^ (bits - 1) ≤ x)
    (hhigh : x ≤ (2 : ℝ) ^ bits) (hhalf : |(n : ℝ) - x| ≤ 1 / 2)
    (heven : |(n : ℝ) - x| = 1 / 2 → n % 2 = 0) (e : Int) :
    IsRoundedTo bits (x * (2 : ℝ) ^ e) ((n : Rat) * (2 : Rat) ^ e) := by
  have hunit : (0 : ℝ) < (2 : ℝ) ^ e := by positivity
  have hbounds := abs_le.1 hhalf
  have hleast : (2 : Int) ^ (bits - 1) ≤ n := by
    have hreal : ((2 ^ (bits - 1) : Int) : ℝ) < ((n + 1 : Int) : ℝ) := by
      push_cast
      linarith
    have hint : (2 : Int) ^ (bits - 1) < n + 1 := by exact_mod_cast hreal
    omega
  have hmost : n ≤ 2 ^ bits := by
    have hreal : (n : ℝ) < ((2 ^ bits + 1 : Int) : ℝ) := by
      push_cast
      linarith
    have hint : n < 2 ^ bits + 1 := by exact_mod_cast hreal
    omega
  have hpos : 0 ≤ n := le_trans (by positivity) hleast
  have hmultiple : ∀ k : Int, |(((k : Rat) * (2 : Rat) ^ e : Rat) : ℝ) - x * (2 : ℝ) ^ e| =
      |(k : ℝ) - x| * (2 : ℝ) ^ e := by
    intro k
    push_cast
    rw [← sub_mul, abs_mul, abs_of_pos hunit]
  -- What is smaller than the full length is further away than the least number that has it.
  have hfar : ∀ w : Rat, w < (2 : Rat) ^ (bits - 1) * (2 : Rat) ^ e →
      |(n : ℝ) - x| * (2 : ℝ) ^ e < |(w : ℝ) - x * (2 : ℝ) ^ e| := by
    intro w hw
    have hwreal : (w : ℝ) < (2 : ℝ) ^ (bits - 1) * (2 : ℝ) ^ e := by
      have hcast : (w : ℝ) < (((2 : Rat) ^ (bits - 1) * (2 : Rat) ^ e : Rat) : ℝ) := by
        exact_mod_cast hw
      push_cast at hcast
      exact hcast
    have hleast := (abs_sub_le_of_half hhalf (2 ^ (bits - 1))).1
    push_cast at hleast
    rw [abs_of_nonpos (sub_nonpos.2 hlow)] at hleast
    have hscaled := mul_le_mul_of_nonneg_right hlow hunit.le
    rw [abs_of_neg (by linarith : (w : ℝ) - x * (2 : ℝ) ^ e < 0)]
    calc |(n : ℝ) - x| * (2 : ℝ) ^ e ≤ -((2 : ℝ) ^ (bits - 1) - x) * (2 : ℝ) ^ e :=
          mul_le_mul_of_nonneg_right hleast hunit.le
      _ < -((w : ℝ) - x * (2 : ℝ) ^ e) := by linarith
  refine ⟨significant_of_le (by omega) hpos hmost e, fun w hw => ?_, fun w hw hne htie => ?_⟩
  · rw [hmultiple]
    rcases hw.multiple_or_lt (by omega) e with ⟨k, rfl⟩ | hsmall
    · rw [hmultiple]
      exact mul_le_mul_of_nonneg_right (abs_sub_le_of_half hhalf k).1 hunit.le
    · exact (hfar w hsmall).le
  · rw [hmultiple] at htie
    rcases hw.multiple_or_lt (by omega) e with ⟨k, rfl⟩ | hsmall
    · rw [hmultiple] at htie
      have hk : k ≠ n := fun heq => hne (by rw [heq])
      have htwo := heven ((abs_sub_le_of_half hhalf k).2 hk (mul_right_cancel₀ hunit.ne' htie))
      -- Half of an even mantissa is one of a bit less, in the unit after this one.
      rcases Int.dvd_of_emod_eq_zero htwo with ⟨half, rfl⟩
      have hvalue :
          ((2 * half : Int) : Rat) * (2 : Rat) ^ e = (half : Rat) * (2 : Rat) ^ (e + 1) := by
        rw [zpow_add_one₀ two_ne_zero]
        push_cast
        ring
      have hdouble : (2 : Int) ^ bits = 2 * 2 ^ (bits - 1) := by
        rw [← pow_succ', Nat.sub_one_add_one (by omega)]
      rw [hvalue]
      exact significant_of_le (by omega) (by omega) (by omega) (e + 1)
    · exact absurd htie (hfar w hsmall).ne'

/-- In the unit that a positive rational is counted in, it is rounded to the nearest multiple
    and a tie to an even one. -/
theorem isRoundedTo_quantum (hbits : 2 ≤ bits) {q : Rat} (hq : 0 < q)
    (hhalf : |(n : Rat) - q / (2 : Rat) ^ quantum bits none q| ≤ 1 / 2)
    (heven : |(n : Rat) - q / (2 : Rat) ^ quantum bits none q| = 1 / 2 → n % 2 = 0) :
    IsRoundedTo bits q ((n : Rat) * (2 : Rat) ^ quantum bits none q) := by
  have hpos : 0 < bits := by omega
  rcases scaled_bounds hpos hq with ⟨hlow, hhigh⟩
  generalize quantum bits none q = e at *
  generalize hunits : q / (2 : Rat) ^ e = x at *
  have hvalue : (q : ℝ) = (x : ℝ) * (2 : ℝ) ^ e := by
    rw [div_eq_iff (by positivity)] at hunits
    rw [hunits]
    push_cast
    rfl
  have hdistance : |(n : ℝ) - (x : ℝ)| = ((|(n : Rat) - x| : Rat) : ℝ) := by push_cast; rfl
  have htwo : ((1 / 2 : Rat) : ℝ) = 1 / 2 := by norm_num
  rw [hvalue]
  refine isRoundedTo_of_half hbits (by exact_mod_cast hlow) (by exact_mod_cast hhigh) ?_
    (fun htie => heven ?_) e
  · rw [hdistance, ← htwo]
    exact_mod_cast hhalf
  · rw [hdistance, ← htwo] at htie
    exact_mod_cast htie

/-- Rounding to a number of bits comes to the number that a rational is rounded to. -/
theorem isRoundedTo_toBits (hbits : 2 ≤ bits) (q : Rat) : IsRoundedTo bits q (toBits bits q) := by
  rcases lt_trichotomy q 0 with hneg | rfl | hpos
  · -- The nearest integer is looked for on the negative side, and it is the opposite one.
    have hopposite : ∀ y : Rat, |((-halfEven y : Int) : Rat) - -y| = |(halfEven y : Rat) - y| := by
      intro y
      rw [← abs_neg]
      push_cast
      congr 1
      ring
    have hrounded := isRoundedTo_quantum (n := -halfEven (q / (2 : Rat) ^ quantum bits none (-q)))
      hbits (neg_pos.2 hneg) (by rw [neg_div, hopposite]; exact abs_halfEven_sub_le _)
      (fun htie => by rw [neg_div, hopposite] at htie; have := halfEven_even htie; omega)
    have hvalue := hrounded.neg
    push_cast at hvalue
    simp only [toBits, if_neg hneg.ne, Rat.abs_of_nonpos hneg.le]
    simpa using hvalue
  · rw [toBits_zero]
    exact isRoundedTo_self (significant_zero bits)
  · simp only [toBits, if_neg hpos.ne', Rat.abs_of_nonneg hpos.le]
    exact isRoundedTo_quantum hbits hpos (abs_halfEven_sub_le _) halfEven_even

end Existence

section Error

variable {bits : Nat} {r : ℝ} {v : Rat}

/-- Half a unit of the last place is what is lost at most, and that is small compared with the
    number. -/
theorem abs_toBits_sub_le (bits : Nat) (q : Rat) : |toBits bits q - q| ≤ |q| / 2 ^ bits := by
  by_cases hq : q = 0
  · simp [hq, toBits_zero]
  · have hunit : (0 : Rat) < (2 : Rat) ^ quantum bits none |q| := by positivity
    have hhalf : (2 : Rat) ^ quantum bits none |q| / 2 ≤ |q| / 2 ^ bits := by
      rw [le_div_iff₀ (by positivity), ← zpow_natCast, div_eq_mul_inv,
        ← zpow_sub_one₀ two_ne_zero, ← zpow_add₀ two_ne_zero]
      refine le_trans (le_of_eq ?_) (binaryOrder_le (abs_pos.2 hq))
      simp only [quantum]
      congr 1
      ring
    simp only [toBits, if_neg hq, abs_eq]
    rw [abs_multiple_sub hunit]
    refine le_trans ?_ hhalf
    have hnear := mul_le_mul_of_nonneg_right
      (abs_halfEven_sub_le (q / (2 : Rat) ^ quantum bits none |q|)) hunit.le
    linarith

/-- What is rounded may be close to a number only, and rounding leaves it close. -/
theorem error_toBits_le {bits : Nat} {q : Rat} {r : ℝ}
    (h : |(q : ℝ) - r| ≤ |r| / 2 ^ (bits + 3)) :
    |(toBits (bits + 1) q : ℝ) - r| ≤ |r| / 2 ^ bits := by
  have hrounded : |(toBits (bits + 1) q : ℝ) - q| ≤ |(q : ℝ)| / 2 ^ (bits + 1) := by
    exact_mod_cast abs_toBits_sub_le (bits + 1) q
  have hsize : |(q : ℝ)| ≤ 9 / 8 * |r| := by
    have hpart : |r| / 2 ^ (bits + 3) ≤ |r| / 2 ^ 3 :=
      div_le_div_of_nonneg_left (abs_nonneg r) (by positivity)
        (pow_le_pow_right₀ one_le_two (Nat.le_add_left 3 bits))
    linarith [abs_sub_abs_le_abs_sub (q : ℝ) r]
  calc |(toBits (bits + 1) q : ℝ) - r|
      ≤ |(toBits (bits + 1) q : ℝ) - q| + |(q : ℝ) - r| := abs_sub_le _ _ _
    _ ≤ 9 / 8 * |r| / 2 ^ (bits + 1) + |r| / 2 ^ (bits + 3) :=
        add_le_add (hrounded.trans (div_le_div_of_nonneg_right hsize (by positivity))) h
    _ = 11 / 16 * (|r| / 2 ^ bits) := by
        rw [pow_add, pow_add]
        ring
    _ ≤ |r| / 2 ^ bits := mul_le_of_le_one_left (by positivity) (by norm_num)

/-- No real number is lost more of. A rational close to it is rounded to a number with such a
    mantissa, and that is not nearer than the one that the real number is rounded to. -/
theorem IsRoundedTo.error_le (h : IsRoundedTo bits r v) (hbits : 2 ≤ bits) :
    |(v : ℝ) - r| ≤ |r| / 2 ^ bits := by
  refine le_of_forall_pos_le_add fun ε hε => ?_
  rcases exists_rat_btwn (lt_add_of_pos_right r (half_pos hε)) with ⟨q, hlow, hhigh⟩
  have hone : (1 : ℝ) ≤ 2 ^ bits := one_le_pow₀ (by norm_num)
  have hclose : |(q : ℝ) - r| ≤ ε / 2 := by
    rw [abs_of_pos (by linarith)]
    linarith
  have hsize : |(q : ℝ)| ≤ |r| + ε / 2 := by linarith [abs_sub_abs_le_abs_sub (q : ℝ) r]
  have herror : |(toBits bits q : ℝ) - q| ≤ |(q : ℝ)| / 2 ^ bits := by
    exact_mod_cast abs_toBits_sub_le bits q
  have hscaled : |(q : ℝ)| / 2 ^ bits ≤ |r| / 2 ^ bits + ε / 2 := by
    refine (div_le_div_of_nonneg_right hsize (by positivity)).trans ?_
    rw [add_div]
    exact add_le_add le_rfl (div_le_self (by linarith) hone)
  calc |(v : ℝ) - r| ≤ |(toBits bits q : ℝ) - r| :=
        h.nearest _ (isRoundedTo_toBits hbits q).significant
    _ ≤ |(toBits bits q : ℝ) - q| + |(q : ℝ) - r| := abs_sub_le _ _ _
    _ ≤ |r| / 2 ^ bits + ε := by linarith

end Error

end Rounding

end Reckoner
