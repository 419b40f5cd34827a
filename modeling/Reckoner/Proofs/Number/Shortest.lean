import Mathlib
import Reckoner.Proofs.Number.Mantissa
import Reckoner.Proofs.Number.ReadBack

/-!
# Seventeen Digits Are Enough

Two doubles are not close to each other, compared with their size, so a rational that is close
to a double is rounded to it. With 17 digits one of the two neighbours of a double is that
close, and so the search for the shortest decimal never gets past them, although no bound is
built into it.

What two numbers are shown as is therefore not close to each other either, if it is not the
same. That is all that keeps the values of a function in order when the function is not
computed exactly.

## Theorems

* `Double.isRounded_of_close`: What is close to a double is rounded to it.
* `Decimal.exists_pick`: With 17 digits there is a neighbour that is close.
* `Double.decimal?_coefficient_le`: So there are no more than 17 digits.
* `Double.seen?_apart`: What numbers are shown as is not close to each other.
-/

namespace Reckoner

namespace Double

section Close

variable {x y : Double} {a b q : Rat}

/-- A double has a mantissa of 53 bits. -/
theorem significant_of_toRat? (hx : x.toRat? = some a) : Rounding.Significant 53 a := by
  rcases toRat?_eq_some hx with ⟨s, m, e, hc, rfl, rfl⟩
  have hsmall : |(m : Int)| < 2 ^ 53 := by
    rw [abs_of_nonneg (Int.natCast_nonneg m)]
    exact_mod_cast hc.1
  have hmagnitude : Rounding.Significant 53 (magnitude m e) := ⟨m, e, hsmall, rfl⟩
  cases s with
  | false => exact hmagnitude
  | true => exact hmagnitude.neg

/-- The largest number is half a unit of its last place below the bound. -/
theorem lt_overflowBound_of_close (hx : x.toRat? = some a) (hpos : 0 < a)
    (hclose : |q - a| < a / 2 ^ 54) : |q| < overflowBound := by
  rcases toRat?_eq_some hx with ⟨s, m, e, hc, rfl, rfl⟩
  have hm : (m : Rat) ≤ 2 ^ 53 - 1 := by
    have hint : m + 1 ≤ 2 ^ 53 := hc.1
    have hcast : (m : Rat) + 1 ≤ 2 ^ 53 := by exact_mod_cast hint
    linarith
  have he : (2 : Rat) ^ e ≤ (2 : Rat) ^ (971 : Int) :=
    zpow_le_zpow_right₀ (by norm_num) hc.2.2.1
  have hvalue := le_abs_self (signed s (magnitude m e))
  have hsize := abs_sub_abs_le_abs_sub q (signed s (magnitude m e))
  rw [abs_of_pos hpos] at hsize
  rw [abs_signed, abs_of_nonneg (magnitude_nonneg m e)] at hvalue
  generalize signed s (magnitude m e) = a at *
  -- The bound is half a unit of the last place above the largest number, and the error is less.
  have hunit : (0 : Rat) < (2 : Rat) ^ (971 : Int) := by positivity
  rw [overflowBound]
  generalize (2 : Rat) ^ (971 : Int) = unit at *
  have hlargest : magnitude m e ≤ (2 ^ 53 - 1) * unit :=
    mul_le_mul hm he (by positivity) (by norm_num)
  have hhalf : (2 ^ 53 - 1) * unit / 2 ^ 54 < unit / 2 := by
    rw [div_lt_iff₀ (by positivity)]
    linarith
  linarith [div_le_div_of_nonneg_right (hvalue.trans hlargest) (by norm_num : (0 : Rat) ≤ 2 ^ 54)]

/-- What is close to a positive double is rounded to it, because all others are further away. -/
theorem isRounded_of_close (hx : x.toRat? = some a) (hpos : 0 < a)
    (hclose : |q - a| < a / 2 ^ 54) : IsRounded q x := by
  have hother : ∀ (y : Double) (b : Rat), y.toRat? = some b → b ≠ a → |a - q| < |b - q| := by
    intro y b hy hne
    -- Another one is so far away from this one that it is far away from the rational too.
    have hapart := (significant_of_toRat? hx).apart (by norm_num) (significant_of_toRat? hy)
      hpos hne
    have htriangle := abs_sub_le b q a
    rw [abs_sub_comm] at hclose
    have hhalves : a / 2 ^ 54 + a / 2 ^ 54 = a / 2 ^ 53 := by ring
    rw [abs_sub_comm q a] at htriangle
    linarith
  have hsmall := lt_overflowBound_of_close hx hpos hclose
  rcases toRat?_eq_some hx with ⟨s, m, e, hc, rfl, rfl⟩
  refine .finite hsmall (fun y b hy => ?_) fun y b hy hne htie => ?_
  · by_cases hne : b = signed s (magnitude m e)
    · rw [hne]
    · exact (hother y b hy hne).le
  · exact absurd htie (hother y b hy hne).ne'

/-- Without a sign there is no other zero. -/
theorem unsignedZero_of_signBit (h : x.signBit = false) : x.unsignedZero = x := by
  simp only [unsignedZero]
  split
  · rename_i hzero
    cases x with
    | finite s m e hc =>
        cases h
        obtain rfl : m = 0 := by simpa [isZero] using hzero
        obtain rfl : e = -1074 := hc.2.2.2.resolve_left (by decide)
        rfl
    | infinite s => cases hzero
    | nan => cases hzero
  · rfl

/-- A decimal that is close to a number reads back as it. -/
theorem ofDecimal_of_close {m : Nat} {e : Int} (hc : Canonical m e) (hm : 0 < m) {d : Decimal}
    (hclose : |d.toRat - magnitude m e| < magnitude m e / 2 ^ 54) :
    ofDecimal false d = finite false m e hc := by
  have hvalue : (finite false m e hc).toRat? = some (magnitude m e) := rfl
  have hrounded := isRounded_of_close hvalue ((magnitude_pos_iff m e).2 hm.ne') hclose
  have hsame := (isRounded_ofMagnitude false d.toRat_nonneg).unique hrounded
  rwa [unsignedZero_of_signBit (signBit_ofMagnitude false _), unsignedZero_of_signBit rfl] at hsame

end Close

end Double

namespace Decimal

variable {accepts : Decimal → Bool} {d r : Decimal} {k : Nat}

/-- What is cut off is less than a unit of the last place that is left. -/
theorem toRat_lt_truncate_next (d : Decimal) (k : Nat) :
    d.toRat < (d.truncate k).toRat + (10 : Rat) ^ (d.exponent + k) := by
  have hten : (10 : Rat) ≠ 0 := by norm_num
  have hcut : (d.coefficient : Rat) < ((d.coefficient / Nat.pow 10 k : Nat) + 1) * 10 ^ k := by
    have hlt := Nat.lt_mul_div_succ d.coefficient (Nat.pow_pos (by decide : 0 < 10) (n := k))
    rw [mul_comm] at hlt
    exact_mod_cast hlt
  simp only [truncate, toRat]
  rw [zpow_add₀ hten, zpow_natCast]
  calc (d.coefficient : Rat) * (10 : Rat) ^ d.exponent
      < ((d.coefficient / Nat.pow 10 k : Nat) + 1) * 10 ^ k * (10 : Rat) ^ d.exponent :=
        mul_lt_mul_of_pos_right hcut (by positivity)
    _ = _ := by ring

theorem toRat_next (d : Decimal) : d.next.toRat = d.toRat + (10 : Rat) ^ d.exponent := by
  simp only [next, toRat]
  push_cast
  ring

/-- If all that is close to a decimal is accepted, there is a neighbour to take as long as 17
    digits are left: the nearer one is half a unit away at most. -/
theorem exists_pick (haccepts : ∀ r : Decimal, |r.toRat - d.toRat| < d.toRat / 2 ^ 54 →
    accepts r = true) (hk : Nat.pow 10 (16 + k) ≤ d.coefficient) :
    ∃ r, pick accepts d k = some r := by
  have hunit : (0 : Rat) < (10 : Rat) ^ (d.exponent + k) := by positivity
  have hsize : (10 : Rat) ^ 16 * (10 : Rat) ^ (d.exponent + k) ≤ d.toRat := by
    have hcast : (10 : Rat) ^ (16 + k) ≤ d.coefficient := by exact_mod_cast hk
    rw [pow_add] at hcast
    rw [toRat, zpow_add₀ (by norm_num), zpow_natCast]
    calc (10 : Rat) ^ 16 * ((10 : Rat) ^ d.exponent * 10 ^ k)
        = (10 : Rat) ^ 16 * 10 ^ k * (10 : Rat) ^ d.exponent := by ring
      _ ≤ d.coefficient * (10 : Rat) ^ d.exponent :=
          mul_le_mul_of_nonneg_right hcast (by positivity)
  have hbelow := toRat_truncate_le d k
  have habove := toRat_lt_truncate_next d k
  have hnext : (d.truncate k).next.toRat = (d.truncate k).toRat + (10 : Rat) ^ (d.exponent + k) :=
    toRat_next _
  have hhalf : (10 : Rat) ^ (d.exponent + k) / 2 < d.toRat / 2 ^ 54 := by
    rw [lt_div_iff₀ (by positivity)]
    norm_num at hsize ⊢
    linarith
  -- The decimal lies between its neighbours, which are one unit apart.
  have heither : accepts (d.truncate k) = true ∨ accepts (d.truncate k).next = true := by
    rcases le_total (d.toRat - (d.truncate k).toRat) ((10 : Rat) ^ (d.exponent + k) / 2) with
      hnear | hnear
    · refine .inl (haccepts _ ?_)
      rw [abs_of_nonpos (by linarith)]
      linarith
    · refine .inr (haccepts _ ?_)
      rw [hnext, abs_of_nonneg (by linarith)]
      linarith
  simp only [pick]
  rcases heither with h | h
  · rw [if_pos h]
    split
    · split <;> exact ⟨_, rfl⟩
    · exact ⟨_, rfl⟩
  · rw [if_pos h, if_pos h]
    split
    · split <;> exact ⟨_, rfl⟩
    · exact ⟨_, rfl⟩

theorem pick_coefficient_le (h : pick accepts d k = some r) :
    r.coefficient ≤ d.coefficient / Nat.pow 10 k + 1 := by
  have hor : r = d.truncate k ∨ r = (d.truncate k).next := by
    simp only [pick] at h
    split at h
    · split at h
      · split at h <;> (cases h; simp)
      · cases h
        exact .inl rfl
    · split at h
      · cases h
        exact .inr rfl
      · cases h
  rcases hor with rfl | rfl
  · exact Nat.le_succ _
  · exact le_rfl

/-- The search does not get past 17 digits, by induction on the digits that may still be
    dropped. -/
theorem shortestFrom_coefficient_le (haccepts : ∀ r : Decimal,
    |r.toRat - d.toRat| < d.toRat / 2 ^ 54 → accepts r = true) (k : Nat)
    (hd : d.coefficient < Nat.pow 10 (17 + k)) :
    (shortestFrom accepts d k).coefficient ≤ 10 ^ 17 := by
  induction k with
  | zero => exact hd.le
  | succ k ih =>
      simp only [shortestFrom]
      cases hpick : pick accepts d (k + 1) with
      | some r =>
          refine (pick_coefficient_le hpick).trans (Nat.div_lt_of_lt_mul (hd.trans_eq ?_))
          rw [Nat.pow_eq, Nat.pow_eq, add_comm, pow_add]
      | none =>
          by_cases hlong : Nat.pow 10 (17 + k) ≤ d.coefficient
          · -- There is a neighbour to take then, and the search has found none.
            rcases exists_pick (k := k + 1) haccepts (by rwa [show 16 + (k + 1) = 17 + k by omega])
              with ⟨r, hr⟩
            rw [hpick] at hr
            cases hr
          · exact ih (not_le.1 hlong)

theorem trimFrom_coefficient_le (d : Decimal) (fuel : Nat) :
    (d.trimFrom fuel).coefficient ≤ d.coefficient := by
  induction fuel generalizing d with
  | zero => exact le_rfl
  | succ fuel ih =>
      simp only [trimFrom]
      split
      · exact (ih _).trans (Nat.div_le_self _ _)
      · exact le_rfl

/-- Two decimals with few digits are not close to each other: in units of the finer one of
    their last places both are integers. -/
theorem toRat_apart {d d' : Decimal} (hd : d.coefficient ≤ 10 ^ 17)
    (hd' : d'.coefficient ≤ 10 ^ 17) (hlt : d.toRat < d'.toRat) :
    d.toRat * (1 + 1 / 10 ^ 17) ≤ d'.toRat := by
  -- The decimal with the finer unit is less than 10 ^ 17 units large.
  suffices hgap : ∀ {u v : Decimal} {n : Nat}, v.coefficient ≤ 10 ^ 17 →
      u.toRat = n * (10 : Rat) ^ v.exponent → u.toRat ≠ v.toRat →
      v.toRat / 10 ^ 17 ≤ |u.toRat - v.toRat| by
    have hgrid : ∀ {u v : Decimal}, v.exponent ≤ u.exponent →
        ∃ n : Nat, u.toRat = n * (10 : Rat) ^ v.exponent := by
      intro u v hle
      rcases Int.eq_ofNat_of_zero_le (sub_nonneg.2 hle) with ⟨n, hn⟩
      refine ⟨u.coefficient * 10 ^ n, ?_⟩
      rw [toRat, show u.exponent = n + v.exponent by omega, zpow_add₀ (by norm_num), zpow_natCast]
      push_cast
      ring
    rcases le_total d.exponent d'.exponent with hle | hle
    · rcases hgrid hle with ⟨n, hn⟩
      have hapart := hgap hd hn hlt.ne'
      rw [abs_of_pos (by linarith)] at hapart
      linarith
    · rcases hgrid hle with ⟨n, hn⟩
      have hapart := hgap hd' hn hlt.ne
      rw [abs_of_neg (by linarith)] at hapart
      linarith
  intro u v n hv hu hne
  have hunit : (0 : Rat) < (10 : Rat) ^ v.exponent := by positivity
  have hsmall : (v.coefficient : Rat) ≤ 10 ^ 17 := by exact_mod_cast hv
  rw [hu, show v.toRat = v.coefficient * (10 : Rat) ^ v.exponent from rfl] at *
  have hcount : (1 : Int) ≤ |(n : Int) - v.coefficient| := Int.one_le_abs fun heq => hne (by
    rw [sub_eq_zero] at heq
    rw [Int.natCast_inj.1 heq])
  have hone : (1 : Rat) ≤ |(n : Rat) - v.coefficient| := by exact_mod_cast hcount
  rw [← sub_mul, abs_mul, abs_of_pos hunit, div_le_iff₀ (by positivity)]
  nlinarith

end Decimal

namespace Double

variable {x y : Double} {q q' : Rat}

/-- A number is shown with 17 digits at most. -/
theorem decimal?_coefficient_le {s : Bool} {m : Nat} {e : Int} {hc : Canonical m e} {d : Decimal}
    (hm : 0 < m) (hd : (finite s m e hc).decimal? = some d) : d.coefficient ≤ 10 ^ 17 := by
  cases hd
  have haccepts : ∀ r : Decimal, |r.toRat - (Decimal.ofBinary m e).toRat| <
      (Decimal.ofBinary m e).toRat / 2 ^ 54 →
        decide (ofDecimal false r = (finite s m e hc).abs) = true := by
    intro r hclose
    rw [Decimal.toRat_ofBinary] at hclose
    exact decide_eq_true (ofDecimal_of_close hc hm hclose)
  refine (Decimal.trimFrom_coefficient_le _ _).trans
    (Decimal.shortestFrom_coefficient_le haccepts _ ?_)
  generalize Decimal.ofBinary m e = d
  have hdigits : d.coefficient < 10 ^ d.digits.length :=
    (Nat.length_toDigits_le_iff (by decide) (List.length_pos_iff.2 Nat.toDigits_ne_nil)).1 le_rfl
  exact hdigits.trans_le (Nat.pow_le_pow_right (by decide) (by omega))

/-- What a number is shown as has 17 digits at most, if it is positive. -/
theorem exists_decimal_of_pos (hq : x.seen? = some q) (hpos : 0 < q) :
    ∃ d : Decimal, d.coefficient ≤ 10 ^ 17 ∧ q = d.toRat := by
  cases x with
  | infinite s => cases hq
  | nan => cases hq
  | finite s m e hc =>
      rcases Nat.eq_zero_or_pos m with rfl | hm
      · rw [seen?_zero] at hq
        cases hq
        exact absurd hpos (lt_irrefl _)
      · rcases Option.map_eq_some_iff.1 hq with ⟨d, hd, rfl⟩
        refine ⟨d, decimal?_coefficient_le hm hd, ?_⟩
        cases s with
        | false => rfl
        | true => exact absurd hpos (not_lt.2 (neg_nonpos.2 d.toRat_nonneg))

/-- What two positive numbers are shown as is not close to each other, if it is not the
    same. -/
theorem seen?_apart (hq : x.seen? = some q) (hq' : y.seen? = some q') (hpos : 0 < q)
    (hlt : q < q') : q * (1 + 1 / 10 ^ 17) ≤ q' := by
  rcases exists_decimal_of_pos hq hpos with ⟨d, hd, rfl⟩
  rcases exists_decimal_of_pos hq' (hpos.trans hlt) with ⟨d', hd', rfl⟩
  exact Decimal.toRat_apart hd hd' hlt

end Double

end Reckoner
