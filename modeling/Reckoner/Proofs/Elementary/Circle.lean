import Mathlib
import Reckoner.Proofs.Elementary.Enclosure
import Reckoner.Proofs.Elementary.Trigonometry

/-!
# Sines and Tangents Are the Real Ones

The enclosures of sines and tangents enclose the real functions. That is followed from the
inside out: the arc tangent of a reciprocal is an alternating series, the circle constant is
made of two of these, an angle in degrees becomes radians, and its sine and cosine are
alternating series again. Above 45 degrees the complement takes over.

A series is only used below one radian, where its terms fall from the first one on. What is
multiplied or divided along the way has a sign, which the crude bounds on the enclosures give.

## Main definitions

* `radians`: An angle in degrees as a real number of radians.

## Theorems

* `radians_add`, `radians_turns`, `radians_halfTurns`: Sums of angles, and turns.
* `arcTangentEnclosure_contains`, `piEnclosure_contains`: The circle constant.
* `smallSineEnclosure_contains`, `smallCosineEnclosure_contains`: Up to 45 degrees.
* `acuteSineEnclosure_contains`, `acuteTangentEnclosure_contains`: Up to 90 degrees.
* `acuteSine_isRoundedTo`, `acuteTangent_isRoundedTo`: What is rounded is the real value.
-/

namespace Reckoner

namespace Elementary

open Enclosure

/-- An angle in degrees as a real number of radians. -/
noncomputable def radians (angle : Rat) : ℝ := angle * Real.pi / 180

variable {p : Nat} {degrees : Rat}

section Radians

theorem radians_zero : radians 0 = 0 := by simp [radians]

theorem radians_add (a b : Rat) : radians (a + b) = radians a + radians b := by
  simp only [radians]
  push_cast
  ring

theorem radians_neg (a : Rat) : radians (-a) = -radians a := by
  simp only [radians]
  push_cast
  ring

theorem radians_sub (a b : Rat) : radians (a - b) = radians a - radians b := by
  rw [sub_eq_add_neg, radians_add, radians_neg, ← sub_eq_add_neg]

theorem radians_thirty : radians 30 = Real.pi / 6 := by
  rw [radians]
  push_cast
  ring

theorem radians_fortyFive : radians 45 = Real.pi / 4 := by
  rw [radians]
  push_cast
  ring

theorem radians_ninety : radians 90 = Real.pi / 2 := by
  rw [radians]
  push_cast
  ring

theorem radians_halfTurns (n : Int) : radians (180 * n) = n * Real.pi := by
  rw [radians]
  push_cast
  ring

theorem radians_halfTurn : radians 180 = Real.pi := by simpa using radians_halfTurns 1

theorem radians_turns (n : Int) : radians (360 * n) = n * (2 * Real.pi) := by
  rw [radians]
  push_cast
  ring

end Radians

section CircleConstant

/-- The powers of a reciprocal over the odd numbers fall. -/
theorem antitone_pow_div_odd {u : ℝ} (hu : 0 ≤ u) (hu' : u ≤ 1) :
    Antitone fun k : Nat => u ^ (2 * k + 1) / (2 * k + 1 : Nat) := by
  refine antitone_nat_of_succ_le fun k => ?_
  refine div_le_div₀ (by positivity) (pow_le_pow_of_le_one hu hu' (by omega)) (by positivity) ?_
  exact_mod_cast (by omega : 2 * k + 1 ≤ 2 * (k + 1) + 1)

theorem arcTangentEnclosure_contains (p : Nat) {n : Nat} (hn : 2 ≤ n) :
    (arcTangentEnclosure p n).Contains (Real.arctan (n : ℝ)⁻¹) := by
  have hcast : (2 : ℝ) ≤ n := by exact_mod_cast hn
  have hpos : 0 < (n : ℝ)⁻¹ := by positivity
  have hsmall : (n : ℝ)⁻¹ ≤ 1 / 2 := by
    rw [one_div]
    exact inv_anti₀ (by norm_num) hcast
  generalize hu : (n : ℝ)⁻¹ = u at *
  have hsum : HasSum (fun k : Nat => (-1) ^ k * (u ^ (2 * k + 1) / (2 * k + 1 : Nat)))
      (Real.arctan u) := by
    have hseries := Real.hasSum_arctan (x := u) (by rw [Real.norm_of_nonneg hpos.le]; linarith)
    simpa only [mul_div_assoc] using hseries
  have hsquare : (((1 : Rat) / ((n : Rat) * n) : Rat) : ℝ) = u * u := by
    push_cast
    rw [← hu]
    field_simp
  have ht : (exact (1 / ((n : Rat) * n))).Contains (u * u) := by
    rw [← hsquare]
    exact contains_exact _
  have hterms := contains_alternating p (fun k => 1 / (2 * (k : Rat) + 1)) (fun _ => -1) hsum
    (antitone_pow_div_odd hpos.le (by linarith)) (w := fun k => u ^ (2 * k + 1))
    (fun k => by positivity) ht
    (by simp only [exact]; positivity) (fun k => ?_) (fun k => ?_) (fun k => ?_) (p / 4 + 8)
  · have hscaled := hterms.scale (1 / (n : Rat))
    have hvalue :
        (((1 : Rat) / n : Rat) : ℝ) * (Real.arctan u / u ^ (2 * 0 + 1)) = Real.arctan u := by
      push_cast
      rw [one_div, hu]
      field_simp
    rw [hvalue] at hscaled
    exact hscaled
  · push_cast
    ring
  · push_cast
    ring
  · rw [div_le_one (by positivity)]
    linarith [(Nat.cast_nonneg k : (0 : Rat) ≤ k)]

/-- The circle constant is sixteen arc tangents of 1/5 less four of 1/239. -/
theorem piEnclosure_contains (p : Nat) : (piEnclosure p).Contains Real.pi := by
  have hfifth := (arcTangentEnclosure_contains p (by norm_num : 2 ≤ 5)).scale 16
  have hsmall := (arcTangentEnclosure_contains p (by norm_num : 2 ≤ 239)).scale (-4)
  have hvalue := Real.four_mul_arctan_inv_5_sub_arctan_inv_239
  have hsum := hfifth.add hsmall
  push_cast at hsum
  rw [show (16 : ℝ) * Real.arctan 5⁻¹ + -4 * Real.arctan 239⁻¹ = Real.pi by linarith] at hsum
  exact hsum

end CircleConstant

section Small

theorem radiansEnclosure_contains (p : Nat) (degrees : Rat) :
    (radiansEnclosure p degrees).Contains (radians degrees) := by
  have hscaled := (piEnclosure_contains p).scale (degrees / 180)
  rw [show (((degrees / 180 : Rat)) : ℝ) * Real.pi = radians degrees by
    rw [radians]; push_cast; ring] at hscaled
  exact hscaled

theorem radiansEnclosure_low (hp : 7 ≤ p) (hlow : 0 ≤ degrees) :
    0 ≤ (radiansEnclosure p degrees).low :=
  le_trans (by positivity) (radiansEnclosure_between hp hlow).le_low

theorem radians_pos (h : 0 < degrees) : 0 < radians degrees := by
  have hreal : (0 : ℝ) < degrees := by exact_mod_cast h
  rw [radians]
  positivity

/-- Half a right angle is less than one radian. -/
theorem radians_le_one (hhigh : degrees ≤ 45) : radians degrees ≤ 1 := by
  have hreal : (degrees : ℝ) ≤ 45 := by exact_mod_cast hhigh
  rw [radians, div_le_one (by norm_num)]
  nlinarith [Real.pi_le_four, Real.pi_pos]

/-- The square of such an angle, rounded outwards. -/
theorem squaredEnclosure_contains (hp : 7 ≤ p) (hlow : 0 < degrees) :
    (outward p (mul (radiansEnclosure p degrees) (radiansEnclosure p degrees))).Contains
        (radians degrees ^ 2) ∧
      0 ≤ (outward p (mul (radiansEnclosure p degrees) (radiansEnclosure p degrees))).low := by
  have hcontains := radiansEnclosure_contains p degrees
  have hnonneg := radiansEnclosure_low hp hlow.le
  rw [sq]
  exact ⟨(hcontains.mul hcontains hnonneg (radians_pos hlow).le).outward p,
    gridBelow_nonneg p (mul_nonneg hnonneg hnonneg)⟩

/-- Powers over factorials fall if the base is at most one. -/
theorem antitone_pow_div_factorial {x : ℝ} (hx : 0 ≤ x) (hx' : x ≤ 1) {m : Nat → Nat}
    (hm : Monotone m) : Antitone fun k => x ^ m k / (m k).factorial := by
  intro j k hjk
  refine div_le_div₀ (by positivity) (pow_le_pow_of_le_one hx hx' (hm hjk)) (by positivity) ?_
  exact_mod_cast Nat.factorial_le (hm hjk)

/-- The next power over its factorial, two steps on. -/
theorem pow_div_factorial_succ (x : ℝ) (n : Nat) : x ^ (n + 2) / (n + 2).factorial =
    1 / ((n + 1) * (n + 2)) * x ^ 2 * (x ^ n / n.factorial) := by
  rw [Nat.factorial_succ, Nat.factorial_succ, pow_add]
  have hfactorial : (n.factorial : ℝ) ≠ 0 := by positivity
  push_cast
  field_simp
  ring

/-- The cosine up to 45 degrees. -/
theorem smallCosineEnclosure_contains (hp : 7 ≤ p) (hlow : 0 < degrees) (hhigh : degrees ≤ 45) :
    (smallCosineEnclosure p degrees).Contains (Real.cos (radians degrees)) := by
  have hx := radians_pos hlow
  rcases squaredEnclosure_contains hp hlow with ⟨ht, htlow⟩
  have hsum : HasSum (fun k : Nat => (-1) ^ k *
      (radians degrees ^ (2 * k) / (2 * k).factorial)) (Real.cos (radians degrees)) := by
    simpa only [mul_div_assoc] using Real.hasSum_cos (radians degrees)
  have hseries := contains_alternating p (fun _ => 1)
    (fun k : Nat => -1 / ((2 * (k : Rat) + 1) * (2 * k + 2))) hsum
    (antitone_pow_div_factorial hx.le (radians_le_one hhigh) fun j k hjk => by omega)
    (w := fun k => radians degrees ^ (2 * k) / (2 * k).factorial) (fun k => by positivity) ht htlow
    (fun k => by simp) (fun k => ?_) (fun _ => le_rfl) (p / 4 + 8)
  · have hfirst : radians degrees ^ (2 * 0) / ((2 * 0).factorial : ℝ) = 1 := by simp
    rw [hfirst, div_one] at hseries
    exact hseries
  · rw [show 2 * (k + 1) = 2 * k + 2 by ring, pow_div_factorial_succ]
    push_cast
    ring

/-- The sine up to 45 degrees. -/
theorem smallSineEnclosure_contains (hp : 7 ≤ p) (hlow : 0 < degrees) (hhigh : degrees ≤ 45) :
    (smallSineEnclosure p degrees).Contains (Real.sin (radians degrees)) := by
  have hx := radians_pos hlow
  rcases squaredEnclosure_contains hp hlow with ⟨ht, htlow⟩
  have hsum : HasSum (fun k : Nat => (-1) ^ k *
      (radians degrees ^ (2 * k + 1) / (2 * k + 1).factorial)) (Real.sin (radians degrees)) := by
    simpa only [mul_div_assoc] using Real.hasSum_sin (radians degrees)
  have hseries := contains_alternating p (fun _ => 1)
    (fun k : Nat => -1 / ((2 * (k : Rat) + 2) * (2 * k + 3))) hsum
    (antitone_pow_div_factorial hx.le (radians_le_one hhigh) fun j k hjk => by omega)
    (w := fun k => radians degrees ^ (2 * k + 1) / (2 * k + 1).factorial) (fun k => by positivity)
    ht htlow (fun k => by simp) (fun k => ?_) (fun _ => le_rfl) (p / 4 + 8)
  · have hquotient : 0 ≤ Real.sin (radians degrees) / radians degrees :=
      div_nonneg (Real.sin_nonneg_of_nonneg_of_le_pi hx.le
        ((radians_le_one hhigh).trans (by linarith [Real.pi_gt_three]))) hx.le
    have hproduct := (radiansEnclosure_contains p degrees).mul (by simpa using hseries)
      (radiansEnclosure_low hp hlow.le) hquotient
    rw [mul_div_cancel₀ _ hx.ne'] at hproduct
    exact hproduct
  · rw [show 2 * (k + 1) + 1 = 2 * k + 1 + 2 by ring, pow_div_factorial_succ]
    push_cast
    ring

end Small

section Acute

variable {bits : Nat}

/-- Above 45 degrees the sine is the cosine of the complement. -/
theorem acuteSineEnclosure_contains (hp : 7 ≤ p) (hlow : 0 < degrees) (hhigh : degrees < 90) :
    (acuteSineEnclosure p degrees).Contains (Real.sin (radians degrees)) := by
  refine Contains.atMost ?_ (by exact_mod_cast Real.sin_le_one _)
  split
  · rename_i hsmall
    exact smallSineEnclosure_contains hp hlow hsmall
  · have hcosine := smallCosineEnclosure_contains hp (by linarith : 0 < 90 - degrees) (by linarith)
    rwa [radians_sub, radians_ninety, Real.cos_pi_div_two_sub] at hcosine

theorem smallTangentEnclosure_contains (hp : 7 ≤ p) (hlow : 0 < degrees) (hhigh : degrees ≤ 45) :
    (smallTangentEnclosure p degrees).Contains (Real.tan (radians degrees)) := by
  rw [Real.tan_eq_sin_div_cos]
  refine (smallSineEnclosure_contains hp hlow hhigh).div
    (smallCosineEnclosure_contains hp hlow hhigh) ?_
  exact lt_of_lt_of_le (by norm_num) (smallCosineEnclosure_between hp hlow.le hhigh).le_low

/-- Above 45 degrees the tangent is the reciprocal of that of the complement. -/
theorem acuteTangentEnclosure_contains (hp : 7 ≤ p) (hlow : 0 < degrees) (hhigh : degrees < 90) :
    (acuteTangentEnclosure p degrees).Contains (Real.tan (radians degrees)) := by
  simp only [acuteTangentEnclosure]
  split
  · rename_i hsmall
    exact smallTangentEnclosure_contains hp hlow hsmall
  · have hpos : 0 < 90 - degrees := by linarith
    have hsmall : 90 - degrees ≤ 45 := by linarith
    have htangent := (smallTangentEnclosure_contains hp hpos hsmall).inverse
      (lt_of_lt_of_le (by positivity) (smallTangentEnclosure_between hp hpos.le hsmall).le_low)
    rwa [radians_sub, radians_ninety, Real.tan_pi_div_two_sub, inv_inv] at htangent

/-- An acute angle in radians. -/
theorem radians_bounds (hlow : 0 ≤ degrees) (hhigh : degrees ≤ 90) :
    0 ≤ radians degrees ∧ radians degrees ≤ Real.pi / 2 := by
  have hpi := Real.pi_pos
  have hnonneg : (0 : ℝ) ≤ degrees := by exact_mod_cast hlow
  have hright : (degrees : ℝ) ≤ 90 := by exact_mod_cast hhigh
  rw [radians]
  refine ⟨by positivity, ?_⟩
  rw [div_le_div_iff₀ (by norm_num) (by norm_num)]
  nlinarith

/-- The sine of an acute angle is the real one, rounded, if it is known or the enclosures
    settle. -/
theorem acuteSine_isRoundedTo (hbits : 2 ≤ bits) (hlow : 0 ≤ degrees) (hhigh : degrees ≤ 90)
    (hsettles : degrees ≠ 0 → degrees ≠ 30 → degrees ≠ 90 →
      Settles bits fun p => acuteSineEnclosure p degrees) :
    Rounding.IsRoundedTo bits (Real.sin (radians degrees)) (acuteSine bits degrees) := by
  have hpos : 0 < bits := by omega
  simp only [acuteSine]
  split
  · rename_i hzero
    rw [hzero, radians_zero, Real.sin_zero]
    exact_mod_cast Rounding.isRoundedTo_self (Rounding.significant_zero bits)
  split
  · rename_i hthirty
    have hhalf : (1 / 2 : ℝ) = ((1 / 2 : Rat) : ℝ) := by norm_num
    rw [hthirty, radians_thirty, Real.sin_pi_div_six, hhalf]
    exact Rounding.isRoundedTo_self (Rounding.significant_half hpos)
  split
  · rename_i hninety
    rw [hninety, radians_ninety, Real.sin_pi_div_two]
    exact_mod_cast Rounding.isRoundedTo_self (Rounding.significant_one hpos)
  · rename_i hzero hthirty hninety
    exact isRoundedTo_round hbits
      (fun p hp => acuteSineEnclosure_contains hp (lt_of_le_of_ne hlow (Ne.symm hzero))
        (lt_of_le_of_ne hhigh hninety)) (hsettles hzero hthirty hninety)

/-- So is the tangent, but there is none at 90 degrees. -/
theorem acuteTangent_isRoundedTo (hbits : 2 ≤ bits) (hlow : 0 ≤ degrees) (hhigh : degrees < 90)
    (hsettles : degrees ≠ 0 → degrees ≠ 45 →
      Settles bits fun p => acuteTangentEnclosure p degrees) :
    Rounding.IsRoundedTo bits (Real.tan (radians degrees)) (acuteTangent bits degrees) := by
  simp only [acuteTangent]
  split
  · rename_i hzero
    rw [hzero, radians_zero, Real.tan_zero]
    exact_mod_cast Rounding.isRoundedTo_self (Rounding.significant_zero bits)
  split
  · rename_i hfortyFive
    rw [hfortyFive, radians_fortyFive, Real.tan_pi_div_four]
    exact_mod_cast Rounding.isRoundedTo_self (Rounding.significant_one (by omega : 0 < bits))
  · rename_i hzero hfortyFive
    exact isRoundedTo_round hbits
      (fun p hp => acuteTangentEnclosure_contains hp (lt_of_le_of_ne hlow (Ne.symm hzero)) hhigh)
      (hsettles hzero hfortyFive)

/-- Whether the enclosures settle or not, no sine is larger than one. -/
theorem acuteSine_bounds (hbits : 2 ≤ bits) (hlow : 0 ≤ degrees) (hhigh : degrees ≤ 90) :
    0 ≤ acuteSine bits degrees ∧ acuteSine bits degrees ≤ 1 := by
  have hpos : 0 < bits := by omega
  simp only [acuteSine]
  split
  · norm_num
  split
  · norm_num
  split
  · norm_num
  · rename_i hzero _ hninety
    have hcontains : ∀ p, 7 ≤ p → (acuteSineEnclosure p degrees).Contains _ := fun p hp =>
      acuteSineEnclosure_contains hp (lt_of_le_of_ne hlow (Ne.symm hzero))
        (lt_of_le_of_ne hhigh hninety)
    refine ⟨?_, round_le hbits hcontains (Rounding.significant_one hpos)
      (by exact_mod_cast Real.sin_le_one _)⟩
    rcases exists_round_eq bits fun p => acuteSineEnclosure p degrees with ⟨p, hp, heq⟩
    rw [heq]
    exact Rounding.toBits_nonneg hpos (acuteSineEnclosure_nonneg hp hlow hhigh)

end Acute

end Elementary

end Reckoner
