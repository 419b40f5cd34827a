import Mathlib
import Reckoner.Elementary.Trigonometry
import Reckoner.Proofs.Elementary.Logarithm

/-!
# How Large Sines and Tangents Are

Sines and cosines are computed from alternating series, and what is said here about
them is crude: the terms get smaller, so the first one is most of the sum. That bounds
an acute sine, cosine and tangent from below and from above, which is what the width of
their quotients depends on.

The poles are where they should be. Folding an angle into the first quadrant keeps its
distance from the nearest odd multiple of 90 degrees, so the folded angle is a right
angle if and only if the angle is one of these.

## Main definitions

* `IsPole`: The angles at which there is no tangent.

## Theorems

* `nested_between`, `nested_first_between`: The first term is most of a series.
* `piEnclosure_between`: The circle constant is about three.
* `smallSineEnclosure_between`, `smallCosineEnclosure_between`: Acute sines and cosines.
* `exists_pole_distance`: Folding keeps the distance from the nearest pole.
* `tangentDegrees?_eq_none_iff`: There is no tangent exactly at a pole.
-/

namespace Reckoner

namespace Enclosure

variable {a b c d : Rat} {x y : Enclosure}

/-- Rounding outwards moves the ends by at most one unit of the grid. -/
theorem between_outward_unit (bits : Nat) (hx : Between a b x) :
    Between (a - 1 / 2 ^ bits) (b + 1 / 2 ^ bits) (outward bits x) := by
  have hpow : (0 : Rat) < 2 ^ bits := by positivity
  have hbelow : x.low - 1 / 2 ^ bits ≤ gridBelow bits x.low ∧ gridBelow bits x.low ≤ x.low := by
    unfold gridBelow
    rw [le_div_iff₀ hpow, div_le_iff₀ hpow, sub_mul, one_div, inv_mul_cancel₀ hpow.ne']
    exact ⟨(Int.sub_one_lt_floor _).le, Int.floor_le _⟩
  have habove : x.high ≤ gridAbove bits x.high ∧
      gridAbove bits x.high ≤ x.high + 1 / 2 ^ bits := by
    unfold gridAbove
    rw [le_div_iff₀ hpow, div_le_iff₀ hpow, add_mul, one_div, inv_mul_cancel₀ hpow.ne']
    exact ⟨Rat.le_ceil, Rat.ceil_lt.le⟩
  have hunit : (0 : Rat) < 1 / 2 ^ bits := by positivity
  refine ⟨?_, ?_, ?_, ?_⟩
  · exact (sub_le_sub_right hx.le_low _).trans hbelow.1
  · exact hbelow.2.trans (hx.low_le.trans (by linarith))
  · exact le_trans (by linarith) (hx.le_high.trans habove.1)
  · exact habove.2.trans (add_le_add_left hx.high_le _)

/-- The product of two numbers that are bounded on both sides of zero. -/
theorem mul_bounds {r s u v : Rat} (hu : -r ≤ u ∧ u ≤ r) (hv : -s ≤ v ∧ v ≤ s) :
    -(r * s) ≤ u * v ∧ u * v ≤ r * s := by
  rw [← abs_le] at hu hv ⊢
  rw [abs_mul]
  exact mul_le_mul hu hv (abs_nonneg v) ((abs_nonneg u).trans hu)

theorem between_mul_symmetric {r s : Rat} (hx : Between (-r) r x) (hy : Between (-s) s y) :
    Between (-(r * s)) (r * s) (mul x y) := by
  rcases mul_bounds ⟨hx.le_low, hx.low_le⟩ ⟨hy.le_low, hy.low_le⟩ with ⟨hlow, hlow'⟩
  rcases mul_bounds ⟨hx.le_high, hx.high_le⟩ ⟨hy.le_high, hy.high_le⟩ with ⟨hhigh, hhigh'⟩
  exact ⟨hlow, hlow', hhigh, hhigh'⟩

theorem between_scale_symmetric {q r s : Rat} (hq : |q| ≤ s) (hx : Between (-r) r x) :
    Between (-(s * r)) (s * r) (scale q x) := by
  rw [abs_le] at hq
  rcases mul_bounds hq ⟨hx.le_low, hx.low_le⟩ with ⟨hlow, hlow'⟩
  rcases mul_bounds hq ⟨hx.le_high, hx.high_le⟩ with ⟨hhigh, hhigh'⟩
  unfold scale
  split
  · exact ⟨hlow, hlow', hhigh, hhigh'⟩
  · exact ⟨hhigh, hhigh', hlow, hlow'⟩

theorem between_div (ha : 0 ≤ a) (hc : 0 < c) (hx : Between a b x) (hy : Between c d y) :
    Between (a / d) (b / c) (div x y) := by
  -- The quotient grows with the dividend and falls with the divisor.
  have hquotient : ∀ {u v : Rat}, a ≤ u → u ≤ b → c ≤ v → v ≤ d → a / d ≤ u / v ∧ u / v ≤ b / c :=
    fun hau hub hcv hvd => ⟨div_le_div₀ (ha.trans hau) hau (hc.trans_le hcv) hvd,
      div_le_div₀ (ha.trans (hau.trans hub)) hub hc hcv⟩
  simp only [div, if_pos (ha.trans hx.le_low), if_pos (ha.trans hx.le_high)]
  rcases hquotient hx.le_low hx.low_le hy.le_high hy.high_le with ⟨hlow, hlow'⟩
  rcases hquotient hx.le_high hx.high_le hy.le_low hy.low_le with ⟨hhigh, hhigh'⟩
  exact ⟨hlow, hlow', hhigh, hhigh'⟩

theorem between_inverse (ha : 0 < a) (hx : Between a b x) :
    Between (1 / b) (1 / a) (inverse x) := by
  have hinverse : ∀ {u : Rat}, a ≤ u → u ≤ b → 1 / b ≤ 1 / u ∧ 1 / u ≤ 1 / a := fun hau hub =>
    ⟨one_div_le_one_div_of_le (ha.trans_le hau) hub, one_div_le_one_div_of_le ha hau⟩
  rcases hinverse hx.le_high hx.high_le with ⟨hlow, hlow'⟩
  rcases hinverse hx.le_low hx.low_le with ⟨hhigh, hhigh'⟩
  exact ⟨hlow, hlow', hhigh, hhigh'⟩

end Enclosure

namespace Elementary

open Enclosure

variable {p : Nat}

section Series

variable {first ratio : Nat → Rat} {t tail : Enclosure} {b r τ : Rat}

/-- One term of a series, when the ones after it are bounded together. -/
theorem nested_step (hp : 7 ≤ p) {k n : Nat} (hratio : |ratio k| ≤ b) (ht : Between (-τ) τ t)
    (hrest : Between (-r) r (nested p first ratio t tail n (k + 1))) :
    Between (first k - b * (τ * r) - 1 / 128) (first k + b * (τ * r) + 1 / 128)
      (nested p first ratio t tail (n + 1) k) := by
  have hgrid := grid_le hp
  have hscaled := between_scale_symmetric hratio (between_mul_symmetric ht hrest)
  have hsum := between_outward_unit p (between_add (between_exact (first k)) hscaled)
  exact hsum.mono (by linarith) (by linarith)

/-- All of a series is bounded, by induction from the innermost term outwards, if what is
    added to a term keeps within the bound. -/
theorem nested_between (hp : 7 ≤ p) (hfirst : ∀ k, |first k| ≤ 1) (hratio : ∀ k, |ratio k| ≤ b)
    (ht : Between (-τ) τ t) (htail : Between (-r) r tail) (hr : 1 + b * (τ * r) + 1 / 128 ≤ r)
    (n k : Nat) : Between (-r) r (nested p first ratio t tail n k) := by
  induction n generalizing k with
  | zero => exact htail
  | succ n ih =>
      rcases abs_le.1 (hfirst k) with ⟨hlow, hhigh⟩
      exact (nested_step hp (hratio k) ht (ih (k + 1))).mono (by linarith) (by linarith)

/-- The first term is most of a series. -/
theorem nested_first_between (hp : 7 ≤ p) (first ratio : Nat → Rat)
    (hfirst : ∀ k, |first k| ≤ 1) (hratio : ∀ k, |ratio k| ≤ b) (ht : Between (-τ) τ t)
    (htail : Between (-r) r tail) (hr : 1 + b * (τ * r) + 1 / 128 ≤ r) (n : Nat) :
    Between (first 0 - b * (τ * r) - 1 / 128) (first 0 + b * (τ * r) + 1 / 128)
      (nested p first ratio t tail (n + 1) 0) :=
  nested_step hp (hratio 0) ht (nested_between hp hfirst hratio ht htail hr n 1)

/-- What is left of a series is between zero and one. -/
theorem tail_between (hr : 1 ≤ r) : Between (-r) r ⟨0, 1⟩ :=
  ⟨by linarith, by linarith, by linarith, hr⟩

end Series

section CircleConstant

theorem abs_reciprocal_odd_le (k : Nat) : |1 / (2 * (k : Rat) + 1)| ≤ 1 := by
  have hk : (0 : Rat) ≤ k := Nat.cast_nonneg k
  rw [abs_of_nonneg (by positivity), div_le_one (by positivity)]
  linarith

theorem arcTangentEnclosure_between (hp : 7 ≤ p) {n : Nat} (hn : 5 ≤ n) :
    Between (47 / 50 / n) (53 / 50 / n) (arcTangentEnclosure p n) := by
  have hcast : (5 : Rat) ≤ n := by exact_mod_cast hn
  have ht : Between (-(1 / 25)) (1 / 25) (exact (1 / ((n : Rat) * n))) := by
    refine (between_exact _).mono ?_ ?_
    · exact le_trans (by norm_num) (by positivity : (0 : Rat) ≤ 1 / ((n : Rat) * n))
    · exact one_div_le_one_div_of_le (by norm_num) (by nlinarith)
  have hseries := nested_first_between hp (fun k => 1 / (2 * (k : Rat) + 1)) (fun _ => -1)
    abs_reciprocal_odd_le (b := 1) (fun _ => by norm_num) ht
    (tail_between (r := 6 / 5) (by norm_num)) (by norm_num) (p / 4 + 7)
  have hbounds : Between (47 / 50) (53 / 50) _ := hseries.mono (by norm_num) (by norm_num)
  have hscaled := between_scale (q := 1 / (n : Rat)) (by positivity) hbounds
  exact hscaled.mono (by rw [one_div_mul_eq_div]) (by rw [one_div_mul_eq_div])

/-- The circle constant, as it is computed, is about three. -/
theorem piEnclosure_between (hp : 7 ≤ p) : Between (29 / 10) (7 / 2) (piEnclosure p) := by
  have hfifth := between_scale (q := 16) (by norm_num) (arcTangentEnclosure_between hp (le_refl 5))
  have hsmall := between_scale_of_neg (q := -4) (by norm_num)
    (arcTangentEnclosure_between hp (by norm_num : 5 ≤ 239))
  exact (between_add hfifth hsmall).mono (by norm_num) (by norm_num)

end CircleConstant

section Acute

variable {degrees : Rat}

theorem radiansEnclosure_between (hp : 7 ≤ p) (hlow : 0 ≤ degrees) :
    Between (29 / 1800 * degrees) (7 / 360 * degrees) (radiansEnclosure p degrees) := by
  have hscaled := between_scale (q := degrees / 180) (by linarith) (piEnclosure_between hp)
  exact hscaled.mono (by linarith) (by linarith)

/-- Half a right angle is less than one radian, and its square is well below one. -/
theorem squared_between (hp : 7 ≤ p) (hlow : 0 ≤ degrees) (hhigh : degrees ≤ 45) :
    Between (-(99 / 128)) (99 / 128)
      (outward p (mul (radiansEnclosure p degrees) (radiansEnclosure p degrees))) := by
  have hgrid := grid_le hp
  have hradians : Between (-(7 / 8)) (7 / 8) (radiansEnclosure p degrees) :=
    (radiansEnclosure_between hp hlow).mono (by linarith) (by linarith)
  have hsquare := between_outward_unit p (between_mul_symmetric hradians hradians)
  exact hsquare.mono (by linarith) (by linarith)

/-- A negative ratio with a denominator that is not small. -/
theorem abs_neg_one_div_le {u v : Rat} (hv : 0 < v) (h : v ≤ u) : |-1 / u| ≤ 1 / v := by
  rw [abs_div, abs_neg, abs_one, abs_of_pos (hv.trans_le h)]
  exact one_div_le_one_div_of_le hv h

/-- A series in the square of such an angle that starts with one. The sine and the cosine
    only differ in the ratios of the terms. -/
theorem squared_series_between {ratio : Nat → Rat} {b : Rat} (hp : 7 ≤ p) (hlow : 0 ≤ degrees)
    (hhigh : degrees ≤ 45) (hratio : ∀ k, |ratio k| ≤ b) (hb : b ≤ 1 / 2) (n : Nat) :
    Between (1 - b * (165 / 128) - 1 / 128) (1 + b * (165 / 128) + 1 / 128)
      (nested p (fun _ => 1) ratio
        (outward p (mul (radiansEnclosure p degrees) (radiansEnclosure p degrees))) ⟨0, 1⟩
        (n + 1) 0) := by
  have hseries := nested_first_between hp (fun _ => 1) ratio (fun _ => by norm_num) hratio
    (squared_between hp hlow hhigh) (tail_between (r := 5 / 3) (by norm_num)) (by linarith) n
  exact hseries.mono (by linarith) (by linarith)

theorem smallCosineEnclosure_between (hp : 7 ≤ p) (hlow : 0 ≤ degrees) (hhigh : degrees ≤ 45) :
    Between (1 / 3) (5 / 3) (smallCosineEnclosure p degrees) := by
  have hratio : ∀ k : Nat, |-1 / ((2 * (k : Rat) + 1) * (2 * k + 2))| ≤ 1 / 2 := by
    intro k
    have hk : (0 : Rat) ≤ k := Nat.cast_nonneg k
    exact abs_neg_one_div_le (by norm_num) (by nlinarith)
  have hseries := squared_series_between hp hlow hhigh hratio le_rfl (p / 4 + 7)
  exact hseries.mono (by norm_num) (by norm_num)

theorem smallSineEnclosure_between (hp : 7 ≤ p) (hlow : 0 ≤ degrees) (hhigh : degrees ≤ 45) :
    Between (degrees / 100) (degrees / 40) (smallSineEnclosure p degrees) := by
  have hratio : ∀ k : Nat, |-1 / ((2 * (k : Rat) + 2) * (2 * k + 3))| ≤ 1 / 6 := by
    intro k
    have hk : (0 : Rat) ≤ k := Nat.cast_nonneg k
    exact abs_neg_one_div_le (by norm_num) (by nlinarith)
  have hseries := squared_series_between hp hlow hhigh hratio (by norm_num) (p / 4 + 7)
  have hfactor : Between (3 / 4) (5 / 4) _ := hseries.mono (by norm_num) (by norm_num)
  have hproduct := between_mul (by linarith) (by norm_num)
    (radiansEnclosure_between hp hlow) hfactor
  exact hproduct.mono (by linarith) (by linarith)

/-- The tangent of a small angle is about as large as the angle. -/
theorem smallTangentEnclosure_between (hp : 7 ≤ p) (hlow : 0 ≤ degrees) (hhigh : degrees ≤ 45) :
    Between (3 * degrees / 500) (3 * degrees / 40) (smallTangentEnclosure p degrees) := by
  have hquotient := between_div (by linarith) (by norm_num)
    (smallSineEnclosure_between hp hlow hhigh) (smallCosineEnclosure_between hp hlow hhigh)
  exact hquotient.mono (by linarith) (by linarith)

end Acute

section Angles

variable {bits : Nat} {angle degrees : Rat}

/-- A remainder is between zero and the period, a whole number of periods away. -/
theorem angleMod_bounds (angle : Rat) {period : Rat} (hperiod : 0 < period) :
    0 ≤ angleMod angle period ∧ angleMod angle period < period ∧
      angle = period * ⌊angle / period⌋ + angleMod angle period := by
  have hlow := (le_div_iff₀ hperiod).1 (Int.floor_le (angle / period))
  have hhigh := (div_lt_iff₀ hperiod).1 (Int.lt_floor_add_one (angle / period))
  have hrest : angleMod angle period = angle - period * ⌊angle / period⌋ := rfl
  rw [hrest]
  refine ⟨by linarith, by linarith, by ring⟩

theorem foldTurn_bounds (angle : Rat) :
    0 ≤ (foldTurn angle).acute ∧ (foldTurn angle).acute ≤ 90 := by
  rcases angleMod_bounds angle (by norm_num : (0 : Rat) < 360) with ⟨hlow, hhigh, -⟩
  simp only [foldTurn]
  split_ifs <;> constructor <;> simp only <;> linarith

/-- No acute sine is negative. -/
theorem acuteSineEnclosure_nonneg (hp : 7 ≤ p) (hlow : 0 ≤ degrees) (hhigh : degrees ≤ 90) :
    0 ≤ (acuteSineEnclosure p degrees).low := by
  simp only [acuteSineEnclosure, atMost]
  -- Above 45 degrees it is the cosine of the complement.
  split
  · rename_i hsmall
    have := (smallSineEnclosure_between hp hlow hsmall).le_low
    linarith
  · have := (smallCosineEnclosure_between hp (by linarith : 0 ≤ 90 - degrees)
      (by linarith)).le_low
    linarith

theorem abs_apply (f : Folded) (value : Rat → Rat) : |f.apply value| = |value f.acute| := by
  simp only [Folded.apply]
  split
  · exact abs_neg _
  · rfl

/-- The odd multiples of a right angle, where there is no tangent. -/
def IsPole (angle : Rat) : Prop := ∃ n : Int, Odd n ∧ angle = 90 * n

/-- Folding keeps the distance from the nearest pole. -/
theorem exists_pole_distance (angle : Rat) : ∃ n : Int, Odd n ∧ 0 ≤ (foldHalfTurn angle).acute ∧
    90 - (foldHalfTurn angle).acute = |angle - 90 * n| := by
  rcases angleMod_bounds angle (by norm_num : (0 : Rat) < 180) with ⟨hlow, hhigh, hsplit⟩
  refine ⟨2 * ⌊angle / 180⌋ + 1, odd_two_mul_add_one _, ?_⟩
  have hdistance :
      angle - 90 * ((2 * ⌊angle / 180⌋ + 1 : Int) : Rat) = angleMod angle 180 - 90 := by
    push_cast
    linarith
  rw [hdistance]
  simp only [foldHalfTurn]
  split
  · rename_i hle
    rw [abs_of_nonpos (by linarith)]
    exact ⟨hlow, by ring⟩
  · rw [abs_of_pos (by linarith)]
    exact ⟨by simp only; linarith, by ring⟩

/-- Only a pole is folded to a right angle. -/
theorem acute_eq_iff (angle : Rat) : (foldHalfTurn angle).acute = 90 ↔ IsPole angle := by
  rcases exists_pole_distance angle with ⟨n, hn, hacute, hdistance⟩
  constructor
  · intro heq
    rw [heq, sub_self] at hdistance
    exact ⟨n, hn, by linarith [abs_eq_zero.1 hdistance.symm]⟩
  · rintro ⟨m, hm, rfl⟩
    -- Two odd multiples are the same, or they are further apart than a right angle.
    have hclose : |(90 : Rat) * m - 90 * n| ≤ 90 := by linarith
    rw [← mul_sub, abs_mul, abs_of_pos (by norm_num : (0 : Rat) < 90)] at hclose hdistance
    have hunit : |m - n| ≤ 1 := by
      have : |(m : Rat) - n| ≤ 1 := by linarith
      exact_mod_cast this
    have heven : Even (m - n) := hm.sub_odd hn
    have hsame : m = n := by
      rw [abs_le] at hunit
      rcases heven with ⟨k, hk⟩
      omega
    subst hsame
    rw [sub_self, abs_zero, mul_zero] at hdistance
    linarith

/-- There is no tangent at the poles, and nowhere else. -/
theorem tangentDegrees?_eq_none_iff (bits : Nat) (angle : Rat) :
    tangentDegrees? bits angle = none ↔ IsPole angle := by
  rw [← acute_eq_iff]
  simp only [tangentDegrees?]
  split
  · rename_i hright
    exact iff_of_true rfl hright
  · rename_i hother
    exact iff_of_false (by rintro ⟨⟩) hother

end Angles

end Elementary

end Reckoner
