import Mathlib
import Reckoner.Proofs.Elementary.Folding
import Reckoner.Proofs.Elementary.Hyperbola
import Reckoner.Proofs.Elementary.Width

/-!
# How Accurate the Computed Values Are

Each enclosure that is computed with a high precision is narrow compared with the value in
it. So it does not matter whether the ends of any of them have been rounded alike. If they
have, the value is rounded like them, and if not, the last one is narrow enough that its lower
end may stand for the value (`error_round_le`).

The widths are those of the series, carried through the few operations that are left. Near a
pole a tangent is the reciprocal of a small one, and near one a logarithm is small itself, but
both are as narrow in proportion: what is small there is a factor, and it is exact.

## Main definitions

* `narrow`: A small number, in which widths are counted.
* `Knows`: An enclosure that is narrow compared with the value in it.

## Theorems

* `error_round_le`: What is rounded is accurate.
* `nearOneEnclosure_width`, `piEnclosure_width`, `smallSineEnclosure_width`,
  `smallCosineEnclosure_width`: The widths of series.
* `naturalLog_error`, `decimalLog_error`: The error of a logarithm.
* `sineDegrees_error`, `cosineDegrees_error`, `tangentDegrees?_error`: The error at an angle.
-/

namespace Reckoner

namespace Enclosure

/-- A small number, in which widths are counted. -/
def narrow : Rat := 1 / 2 ^ 264

theorem narrow_pos : 0 < narrow := by
  unfold narrow
  positivity

/-- The grid of a high precision is fine, and there are many terms. -/
theorem grid_narrow {p : Nat} (hp : 1024 ≤ p) :
    (2 : Rat) / 2 ^ p ≤ narrow ∧ (1 / 2 : Rat) ^ (p / 4 + 8) ≤ narrow := by
  constructor
  · rw [narrow, div_le_div_iff₀ (by positivity) (by positivity), ← pow_succ', one_mul]
    exact pow_le_pow_right₀ (by norm_num) (by omega)
  · rw [narrow, one_div_pow]
    exact one_div_le_one_div_of_le (by positivity) (pow_le_pow_right₀ (by norm_num) (by omega))

/-- The value is in the enclosure, and the enclosure is narrow compared with it. -/
structure Knows (bits : Nat) (x : Enclosure) (r : ℝ) : Prop where
  contains : x.Contains r
  width_le : (width x : ℝ) ≤ |r| / 2 ^ bits

theorem Knows.mono {bits bits' : Nat} {x : Enclosure} {r : ℝ} (h : x.Knows bits r)
    (hle : bits' ≤ bits) : x.Knows bits' r :=
  ⟨h.contains, h.width_le.trans (div_le_div_of_nonneg_left (abs_nonneg r) (by positivity)
    (pow_le_pow_right₀ (by norm_num) hle))⟩

theorem Contains.abs_low_sub_le {x : Enclosure} {r : ℝ} (h : x.Contains r) :
    |(x.low : ℝ) - r| ≤ (width x : ℝ) := by
  have hlow := h.low_le
  have hhigh := h.le_high
  rw [width]
  push_cast
  rw [abs_of_nonpos (by linarith), abs_of_nonneg (by linarith)]
  linarith

/-- Refining ends with an enclosure whose ends are rounded alike, or with the last one. -/
theorem settle_cases (bits : Nat) (enclose : Nat → Enclosure) (n precision : Nat) :
    (∃ p, precision ≤ p ∧ Rounding.toBits bits (enclose p).low =
      Rounding.toBits bits (enclose p).high ∧
      settle bits enclose n precision = Rounding.toBits bits (enclose p).low) ∨
    settle bits enclose n precision = Rounding.toBits bits (enclose (2 ^ n * precision)).low := by
  induction n generalizing precision with
  | zero => exact .inr (by simp [settle])
  | succ n ih =>
      simp only [settle]
      split
      · rename_i hends
        exact .inl ⟨precision, le_rfl, hends, rfl⟩
      · rcases ih (2 * precision) with ⟨p, hp, hends⟩ | hlast
        · exact .inl ⟨p, by omega, hends⟩
        · refine .inr (hlast.trans ?_)
          rw [show 2 ^ n * (2 * precision) = 2 ^ (n + 1) * precision by ring]

/-- What is rounded is accurate, whether or not the ends have been rounded alike. -/
theorem error_round_le {enclose : Nat → Enclosure} {r : ℝ}
    (h : ∀ p, 7 ≤ p → (enclose p).Contains r) (hknown : ∀ p, 1024 ≤ p → (enclose p).Knows 62 r) :
    |(round 60 enclose : ℝ) - r| ≤ |r| / 2 ^ 59 := by
  have hr := abs_nonneg r
  rcases settle_cases 60 enclose 8 128 with ⟨p, hp, hends, heq⟩ | heq
  · have herror := ((h p (by omega)).isRoundedTo (by norm_num) hends).error_le (by norm_num)
    rw [round, heq]
    exact herror.trans (div_le_div_of_nonneg_left hr (by positivity) (by norm_num))
  · -- The ends of the last enclosure may be rounded differently, but the lower one will do.
    have hlast := hknown (2 ^ 8 * 128) (by norm_num)
    rw [round, heq]
    exact Rounding.error_toBits_le (hlast.contains.abs_low_sub_le.trans hlast.width_le)

end Enclosure

namespace Elementary

open Enclosure

variable {p : Nat} {q y degrees : Rat}

/-- An enclosure with a width of some narrow units is narrow for a value that is not small. -/
theorem knows_of_width {x : Enclosure} {r : ℝ} (size : Rat) (h : x.Contains r)
    (hwidth : width x ≤ 20000 * size * narrow) (hsize : (size : ℝ) ≤ |r|) : x.Knows 200 r := by
  refine ⟨h, ?_⟩
  have hreal : (width x : ℝ) ≤ 20000 * size * narrow := by exact_mod_cast hwidth
  -- Any number of units below 2 ^ 64 would do.
  have hnarrow : (narrow : ℝ) * 20000 ≤ 1 / 2 ^ 200 := by
    rw [narrow, Rat.cast_div, Rat.cast_one, Rat.cast_pow, Rat.cast_ofNat,
      div_mul_eq_mul_div, one_mul, div_le_div_iff₀ (by positivity) (by positivity), one_mul,
      show (264 : Nat) = 200 + 64 by norm_num, pow_add, mul_comm]
    exact mul_le_mul_of_nonneg_left (by norm_num) (by positivity)
  have hpos : (0 : ℝ) < narrow := by exact_mod_cast narrow_pos
  calc (width x : ℝ) ≤ 20000 * size * narrow := hreal
    _ = size * (narrow * 20000) := by ring
    _ ≤ |r| * (narrow * 20000) := mul_le_mul_of_nonneg_right hsize (by positivity)
    _ ≤ |r| * (1 / 2 ^ 200) := mul_le_mul_of_nonneg_left hnarrow (abs_nonneg r)
    _ = |r| / 2 ^ 200 := by ring

section Logarithms

theorem width_logSeries (hp : 1024 ≤ p) {t : Enclosure} (ht : Between 0 (1 / 20) t)
    (hw : width t ≤ narrow) : width (logSeries p t (p / 4 + 8) 0) ≤ 8 * narrow := by
  have hpos := narrow_pos
  rcases grid_narrow hp with ⟨hgrid, hterms⟩
  have hbounded : ∀ n k, Between (-2) 2 (nested p (fun k => 1 / (2 * (k : Rat) + 1))
      (fun _ => 1) t ⟨0, 2⟩ n k) := fun n k =>
    (logSeries_between (by omega) ht n k).mono (by norm_num) le_rfl
  have hwidth := width_nested_le _ ⟨0, 2⟩ (b := 1) (fun _ => by norm_num)
    (ht.mono (by norm_num : -(1 / 20) ≤ (0 : Rat)) le_rfl) hw hbounded (by norm_num)
    (p / 4 + 8) 0
  rw [width_from_zero (by norm_num)] at hwidth
  rw [logSeries]
  linarith

/-- Near one the enclosure is narrow in proportion to the distance from one. -/
theorem nearOneEnclosure_width (hp : 1024 ≤ p) (hlow : 2 / 3 ≤ y) (hhigh : y ≤ 4 / 3) :
    width (nearOneEnclosure p y) ≤ 8 * |2 * ((y - 1) / (y + 1))| * narrow := by
  have hpos := narrow_pos
  rcases argument_bounds hlow hhigh with ⟨hzlow, hzhigh⟩
  simp only [nearOneEnclosure]
  generalize (y - 1) / (y + 1) = z at *
  have hgrid := grid_le (p := p) (by omega)
  have hsquare : Between ((0 : Int) : Rat) (1 / 25) (exact (z * z)) := by
    refine (between_exact _).mono ?_ ?_
    · push_cast
      exact mul_self_nonneg z
    · nlinarith
  have ht : Between 0 (1 / 20) (outward p (exact (z * z))) :=
    (between_outward p hsquare).mono (by simp) (by linarith)
  have hw : width (outward p (exact (z * z))) ≤ narrow := by
    have houtward := width_outward_le p (exact (z * z))
    rw [width_exact, zero_add] at houtward
    exact houtward.trans (grid_narrow hp).1
  rw [width_scale]
  have hseries := mul_le_mul_of_nonneg_left (width_logSeries hp ht hw) (abs_nonneg (2 * z))
  rw [logSeries] at hseries
  linarith

/-- The logarithm of a number near one is not smaller than the first term of its series. -/
theorem first_term_le_log (hlow : 2 / 3 ≤ y) (hhigh : y ≤ 4 / 3) :
    ((|2 * ((y - 1) / (y + 1))| : Rat) : ℝ) ≤ |Real.log y| := by
  -- The terms after the first have its sign, as every enclosure shows. The coarsest will do.
  have hcontains := nearOneEnclosure_contains 7 hlow hhigh
  rcases nearOneEnclosure_between (p := 7) le_rfl hlow hhigh with ⟨hpos, hneg⟩
  by_cases hy : 1 ≤ y
  · have hz : 0 ≤ (y - 1) / (y + 1) := div_nonneg (by linarith) (by linarith)
    have hfirst : ((2 * ((y - 1) / (y + 1)) : Rat) : ℝ) ≤ Real.log y :=
      le_trans (by exact_mod_cast (hpos hy).le_low) hcontains.low_le
    rw [abs_of_nonneg (by linarith)]
    exact hfirst.trans (le_abs_self _)
  · rw [not_le] at hy
    have hz : (y - 1) / (y + 1) < 0 := div_neg_of_neg_of_pos (by linarith) (by linarith)
    have hfirst : Real.log y ≤ ((2 * ((y - 1) / (y + 1)) : Rat) : ℝ) :=
      hcontains.le_high.trans (by exact_mod_cast (hneg hy).high_le)
    rw [abs_of_neg (by linarith), Rat.cast_neg]
    exact (neg_le_neg hfirst).trans (neg_le_abs _)

theorem twoEnclosure_width (hp : 1024 ≤ p) : width (twoEnclosure p) ≤ 6 * narrow := by
  have hpos := narrow_pos
  have hupper := nearOneEnclosure_width hp (y := 4 / 3) (by norm_num) le_rfl
  have hlower := nearOneEnclosure_width hp (y := 2 / 3) le_rfl (by norm_num)
  have hsum := width_add_le (nearOneEnclosure p (4 / 3)) (scale (-1) (nearOneEnclosure p (2 / 3)))
  rw [width_scale] at hsum
  norm_num [abs_of_pos, abs_of_neg] at hupper hlower hsum
  rw [twoEnclosure]
  linarith

/-- A power of two that is split off outweighs the rest of the logarithm. -/
theorem order_le_log {order : Int} (hlow : 2 / 3 ≤ y) (hhigh : y ≤ 4 / 3) (horder : order ≠ 0) :
    ((6 / 25 * |(order : Rat)| : Rat) : ℝ) ≤ |order * Real.log 2 + Real.log y| := by
  have hcontains : (add (scale order (twoEnclosure 7)) (nearOneEnclosure 7 y)).Contains
      (order * Real.log 2 + Real.log y) := by
    have hpower := (twoEnclosure_contains 7).scale (order : Rat)
    push_cast at hpower
    exact hpower.add (nearOneEnclosure_contains 7 hlow hhigh)
  rcases naturalEnclosure_between (p := 7) le_rfl hlow hhigh with ⟨hpositive, hnegative⟩
  rcases lt_or_gt_of_ne horder with hneg | hpos
  · have hcast : (order : Rat) ≤ -1 := by exact_mod_cast (by omega : order ≤ -1)
    have hend := (hnegative hneg).high_le.trans
      (by linarith : 24 / 35 * (order : Rat) + 20 / 63 ≤ 6 / 25 * order)
    have hvalue := hcontains.le_high.trans (Rat.cast_le.2 hend)
    rw [abs_of_neg (by linarith : (order : Rat) < 0), mul_neg, Rat.cast_neg]
    exact (neg_le_neg hvalue).trans (neg_le_abs _)
  · have hcast : (1 : Rat) ≤ order := by exact_mod_cast hpos
    have hend := le_trans (by linarith : 6 / 25 * (order : Rat) ≤ 24 / 35 * order - 4 / 9)
      (hpositive hpos).le_low
    have hvalue := (Rat.cast_le.2 hend).trans hcontains.low_le
    rw [abs_of_pos (by linarith : (0 : Rat) < order)]
    exact hvalue.trans (le_abs_self _)

theorem naturalEnclosure_knows (hp : 1024 ≤ p) (hq : 0 < q) :
    (naturalEnclosure p q).Knows 200 (Real.log q) := by
  have hpos := narrow_pos
  have hcontains := naturalEnclosure_contains p hq
  rcases naturalEnclosure_eq p hq with ⟨order, y, hlow, hhigh, hsplit, -, heq⟩
  have hrest := nearOneEnclosure_width hp hlow hhigh
  have hlog := log_of_split hlow hsplit
  rw [heq, hlog] at hcontains ⊢
  by_cases horder : order = 0
  · -- Nothing is split off, and the number may be as near to one as it likes.
    rw [if_pos horder] at hcontains ⊢
    refine knows_of_width |2 * ((y - 1) / (y + 1))| hcontains ?_ ?_
    · nlinarith [abs_nonneg (2 * ((y - 1) / (y + 1)))]
    · rw [horder, Int.cast_zero, zero_mul, zero_add]
      exact first_term_le_log hlow hhigh
  · -- The logarithm is as large as what is split off, and so is the width.
    rw [if_neg horder] at hcontains ⊢
    refine knows_of_width _ hcontains ?_ (order_le_log hlow hhigh horder)
    have hone : (1 : Rat) ≤ |(order : Rat)| := by exact_mod_cast Int.one_le_abs horder
    have hz : |2 * ((y - 1) / (y + 1))| ≤ 2 / 5 := by
      rcases argument_bounds hlow hhigh with ⟨hzlow, hzhigh⟩
      rw [abs_le]
      constructor <;> linarith
    have hsum := width_add_le (scale order (twoEnclosure p)) (nearOneEnclosure p y)
    rw [width_scale] at hsum
    have hpower := mul_le_mul_of_nonneg_left (twoEnclosure_width hp) (abs_nonneg (order : Rat))
    nlinarith

theorem log_ten_bounds : 1 ≤ Real.log 10 ∧ Real.log 10 ≤ 3 := by
  have hten := naturalEnclosure_contains 7 (q := 10) (by norm_num)
  have hbetween := naturalEnclosure_ten (p := 7) le_rfl
  have hlow := (Rat.cast_le.2 hbetween.le_low).trans hten.low_le
  have hhigh := hten.le_high.trans (Rat.cast_le.2 hbetween.high_le)
  push_cast at hlow hhigh
  exact ⟨hlow, hhigh⟩

/-- A quotient of two logarithms is about as narrow as they are. -/
theorem decimalEnclosure_knows (hp : 1024 ≤ p) (hq : 0 < q) :
    (div (naturalEnclosure p q) (naturalEnclosure p 10)).Knows 190
      (Real.log q / Real.log 10) := by
  refine ⟨decimalEnclosure_contains (by omega) hq, ?_⟩
  rcases log_ten_bounds with ⟨hone, hthree⟩
  have hdividend := naturalEnclosure_knows hp hq
  have hlow := hdividend.contains.abs_low_sub_le
  have hdivisor := (naturalEnclosure_knows hp (q := 10) (by norm_num)).width_le
  have hquotient := width_div_le (x := naturalEnclosure p q) one_pos
    (naturalEnclosure_ten (p := p) (by omega))
  rw [mul_one, div_one, div_one] at hquotient
  have hreal : ((div (naturalEnclosure p q) (naturalEnclosure p 10)).width : ℝ) ≤
      (naturalEnclosure p q).width +
        |((naturalEnclosure p q).low : ℝ)| * (naturalEnclosure p 10).width := by
    exact_mod_cast hquotient
  have hwidth := hdividend.width_le
  push_cast at hdivisor
  rw [abs_of_nonneg (by linarith)] at hdivisor
  -- The width of the divisor counts as much as the dividend is large.
  have hsize : |((naturalEnclosure p q).low : ℝ)| ≤ 2 * |Real.log q| := by
    have hsmall : |Real.log q| / 2 ^ 200 ≤ |Real.log q| :=
      div_le_self (abs_nonneg _) (one_le_pow₀ (by norm_num))
    linarith [abs_sub_abs_le_abs_sub ((naturalEnclosure p q).low : ℝ) (Real.log q)]
  have hten : ((naturalEnclosure p 10).width : ℝ) ≤ 3 / 2 ^ 200 :=
    hdivisor.trans (div_le_div_of_nonneg_right hthree (by positivity))
  have hvalue : |Real.log q| / 3 ≤ |Real.log q / Real.log 10| := by
    rw [abs_div, abs_of_pos (by linarith : (0 : ℝ) < Real.log 10)]
    exact div_le_div_of_nonneg_left (abs_nonneg _) (by linarith) hthree
  calc _ ≤ |Real.log q| / 2 ^ 200 + 2 * |Real.log q| * (3 / 2 ^ 200) :=
        hreal.trans (add_le_add hwidth (mul_le_mul hsize hten
          (by exact_mod_cast width_nonneg _) (by positivity)))
    _ = 21 * (|Real.log q| / 3) / 2 ^ 200 := by ring
    _ ≤ 21 * |Real.log q / Real.log 10| / 2 ^ 200 := by gcongr
    _ ≤ |Real.log q / Real.log 10| / 2 ^ 190 := by
        rw [show (200 : Nat) = 190 + 10 by norm_num, pow_add, div_le_div_iff₀ (by positivity)
          (by positivity)]
        have hnonneg : 0 ≤ |Real.log q / Real.log 10| * 2 ^ 190 := by positivity
        nlinarith

/-- The natural logarithm is accurate. -/
theorem naturalLog_error (hq : 0 < q) :
    |(naturalLog 60 q : ℝ) - Real.log q| ≤ |Real.log q| / 2 ^ 59 := by
  simp only [naturalLog]
  split
  · rename_i hone
    simp [hone]
  · exact error_round_le (fun p _ => naturalEnclosure_contains p hq)
      fun p hp => (naturalEnclosure_knows hp hq).mono (by norm_num)

/-- So is the decimal one. -/
theorem decimalLog_error (hq : 0 < q) :
    |(decimalLog 60 q : ℝ) - Real.log q / Real.log 10| ≤
      |Real.log q / Real.log 10| / 2 ^ 59 := by
  simp only [decimalLog]
  split
  · rename_i hone
    simp [hone]
  · exact error_round_le (fun p hp => decimalEnclosure_contains hp hq)
      fun p hp => (decimalEnclosure_knows hp hq).mono (by norm_num)

end Logarithms

section CircleConstant

theorem arcTangentEnclosure_width (hp : 1024 ≤ p) {n : Nat} (hn : 5 ≤ n) :
    width (arcTangentEnclosure p n) ≤ 3 / n * narrow := by
  have hcast : (5 : Rat) ≤ n := by exact_mod_cast hn
  rcases grid_narrow hp with ⟨hgrid, hterms⟩
  have ht : Between (-(1 / 25)) (1 / 25) (exact (1 / ((n : Rat) * n))) := by
    refine (between_exact _).mono ?_ ?_
    · exact le_trans (by norm_num) (by positivity : (0 : Rat) ≤ 1 / ((n : Rat) * n))
    · exact one_div_le_one_div_of_le (by norm_num) (by nlinarith)
  have hratio : ∀ k : Nat, |(fun _ => -1 : Nat → Rat) k| ≤ 1 := fun _ => by norm_num
  have hseries := width_nested_le _ ⟨0, 1⟩ hratio ht (width_exact _).le
    (nested_between (p := p) (r := 6 / 5) (by omega) abs_reciprocal_odd_le hratio ht
      (tail_between (by norm_num)) (by norm_num)) (by norm_num) (p / 4 + 8) 0
  rw [width_from_zero (by norm_num)] at hseries
  rw [arcTangentEnclosure, width_scale, abs_of_pos (by positivity), div_mul_eq_mul_div, one_mul,
    div_mul_eq_mul_div]
  exact div_le_div_of_nonneg_right (by linarith) (by positivity)

theorem piEnclosure_width (hp : 1024 ≤ p) : width (piEnclosure p) ≤ 12 * narrow := by
  have hpos := narrow_pos
  have hfifth := arcTangentEnclosure_width hp (le_refl 5)
  have hsmall := arcTangentEnclosure_width hp (by norm_num : 5 ≤ 239)
  have hsum := width_add_le (scale 16 (arcTangentEnclosure p 5))
    (scale (-4) (arcTangentEnclosure p 239))
  norm_num [width_scale] at hfifth hsmall hsum
  rw [piEnclosure]
  linarith

theorem radiansEnclosure_width (hp : 1024 ≤ p) (hlow : 0 ≤ degrees) :
    width (radiansEnclosure p degrees) ≤ degrees / 15 * narrow := by
  rw [radiansEnclosure, width_scale, abs_of_nonneg (by linarith)]
  have hscaled := mul_le_mul_of_nonneg_left (piEnclosure_width hp)
    (by linarith : 0 ≤ degrees / 180)
  linarith

end CircleConstant

section Acute

/-- A series in the square of an angle up to 45 degrees. -/
theorem squared_series_width {ratio : Nat → Rat} (hp : 1024 ≤ p) (hlow : 0 ≤ degrees)
    (hhigh : degrees ≤ 45) (hratio : ∀ k, |ratio k| ≤ 1 / 2) :
    width (nested p (fun _ => 1) ratio
      (outward p (mul (radiansEnclosure p degrees) (radiansEnclosure p degrees))) ⟨0, 1⟩
      (p / 4 + 8) 0) ≤ 15 * narrow := by
  have hpos := narrow_pos
  rcases grid_narrow hp with ⟨hgrid, hterms⟩
  have hsquared := squared_between (p := p) (by omega) hlow hhigh
  have hangle := radiansEnclosure_between (p := p) (by omega) hlow
  have hbound : |(radiansEnclosure p degrees).high| ≤ 7 / 8 ∧
      |(radiansEnclosure p degrees).low| ≤ 7 / 8 := by
    rw [abs_le, abs_le]
    exact ⟨⟨by linarith [hangle.le_high], by linarith [hangle.high_le]⟩,
      by linarith [hangle.le_low], by linarith [hangle.low_le]⟩
  have hw : width (outward p (mul (radiansEnclosure p degrees) (radiansEnclosure p degrees))) ≤
      7 * narrow := by
    have hproduct := width_mul_le hbound.1 hbound.2
    have hradians := radiansEnclosure_width hp hlow
    have houtward := width_outward_le p
      (mul (radiansEnclosure p degrees) (radiansEnclosure p degrees))
    nlinarith
  have hseries := width_nested_le (fun _ => 1) ⟨0, 1⟩ hratio hsquared hw
    (nested_between (p := p) (r := 5 / 3) (by omega) (fun _ => by norm_num) hratio hsquared
      (tail_between (by norm_num)) (by norm_num)) (by norm_num) (p / 4 + 8) 0
  rw [width_from_zero (by norm_num)] at hseries
  linarith

theorem smallCosineEnclosure_width (hp : 1024 ≤ p) (hlow : 0 ≤ degrees) (hhigh : degrees ≤ 45) :
    width (smallCosineEnclosure p degrees) ≤ 15 * narrow := by
  have hratio : ∀ k : Nat, |-1 / ((2 * (k : Rat) + 1) * (2 * k + 2))| ≤ 1 / 2 := by
    intro k
    have hk : (0 : Rat) ≤ k := Nat.cast_nonneg k
    exact abs_neg_one_div_le (by norm_num) (by nlinarith)
  have hseries := squared_series_width hp hlow hhigh hratio
  exact hseries

theorem smallSineEnclosure_width (hp : 1024 ≤ p) (hlow : 0 ≤ degrees) (hhigh : degrees ≤ 45) :
    width (smallSineEnclosure p degrees) ≤ degrees * narrow := by
  have hpos := narrow_pos
  have hratio : ∀ k : Nat, |-1 / ((2 * (k : Rat) + 2) * (2 * k + 3))| ≤ 1 / 2 := by
    intro k
    have hk : (0 : Rat) ≤ k := Nat.cast_nonneg k
    exact abs_neg_one_div_le (by norm_num) (by nlinarith)
  have hseries := squared_series_width hp hlow hhigh hratio
  have hbetween := squared_series_between (p := p) (by omega) hlow hhigh hratio le_rfl (p / 4 + 7)
  have hangle := radiansEnclosure_between (p := p) (by omega) hlow
  have hradians := radiansEnclosure_width hp hlow
  simp only [smallSineEnclosure]
  refine (width_mul_le (r := 7 / 360 * degrees) (s := 2) ?_ ?_).trans ?_
  · rw [abs_of_nonneg (by linarith [hangle.le_high])]
    exact hangle.high_le
  · rw [abs_le]
    exact ⟨by linarith [hbetween.le_low], by linarith [hbetween.low_le]⟩
  · nlinarith

/-- The tangent of a small angle is narrow in proportion to the angle. -/
theorem smallTangentEnclosure_width (hp : 1024 ≤ p) (hlow : 0 ≤ degrees) (hhigh : degrees ≤ 45) :
    width (smallTangentEnclosure p degrees) ≤ 7 * degrees * narrow := by
  have hpos := narrow_pos
  have hsine := smallSineEnclosure_between (p := p) (by omega) hlow hhigh
  have hquotient := width_div_le (x := smallSineEnclosure p degrees) (by norm_num)
    (smallCosineEnclosure_between (p := p) (by omega) hlow hhigh)
  have hlowEnd : |(smallSineEnclosure p degrees).low| ≤ degrees / 40 := by
    rw [abs_of_nonneg (by linarith [hsine.le_low])]
    exact hsine.low_le
  have hpart := mul_le_mul hlowEnd (smallCosineEnclosure_width hp hlow hhigh) (width_nonneg _)
    (by linarith)
  have hwidth := smallSineEnclosure_width hp hlow hhigh
  norm_num [mul_div_assoc', mul_assoc] at hquotient
  rw [smallTangentEnclosure]
  nlinarith

theorem acuteSineEnclosure_knows (hp : 1024 ≤ p) (hlow : 0 < degrees) (hhigh : degrees < 90) :
    (acuteSineEnclosure p degrees).Knows 200 (Real.sin (radians degrees)) := by
  have hpos := narrow_pos
  have hcontains := acuteSineEnclosure_contains (p := p) (by omega) hlow hhigh
  -- What is cut off is above the value, and so above the lower end.
  have hbound : (acuteSineEnclosure p degrees).low ≤ 1 := by
    exact_mod_cast hcontains.low_le.trans (Real.sin_le_one _)
  simp only [acuteSineEnclosure] at hcontains hbound ⊢
  split at hcontains
  · rename_i hsmall
    rw [if_pos hsmall] at hbound ⊢
    have hbetween := smallSineEnclosure_between (p := p) (by omega) hlow.le hsmall
    refine knows_of_width (degrees / 100) hcontains
      ((width_atMost_le (by simpa only [atMost] using hbound)).trans ?_) ?_
    · have hwidth := smallSineEnclosure_width hp hlow.le hsmall
      nlinarith
    · exact ((Rat.cast_le.2 hbetween.le_low).trans hcontains.low_le).trans (le_abs_self _)
  · rename_i hlarge
    rw [if_neg hlarge] at hbound ⊢
    have hrest : 0 ≤ 90 - degrees := by linarith
    have hbetween := smallCosineEnclosure_between (p := p) (by omega) hrest (by linarith)
    refine knows_of_width (1 / 3) hcontains
      ((width_atMost_le (by simpa only [atMost] using hbound)).trans ?_) ?_
    · have hwidth := smallCosineEnclosure_width hp hrest (by linarith)
      linarith
    · exact ((Rat.cast_le.2 hbetween.le_low).trans hcontains.low_le).trans (le_abs_self _)

/-- A tangent near the pole is large, and its enclosure is narrow in proportion. -/
theorem acuteTangentEnclosure_knows (hp : 1024 ≤ p) (hlow : 0 < degrees) (hhigh : degrees < 90) :
    (acuteTangentEnclosure p degrees).Knows 200 (Real.tan (radians degrees)) := by
  have hpos := narrow_pos
  have hcontains := acuteTangentEnclosure_contains (p := p) (by omega) hlow hhigh
  simp only [acuteTangentEnclosure] at hcontains ⊢
  split at hcontains
  · rename_i hsmall
    rw [if_pos hsmall]
    have hbetween := smallTangentEnclosure_between (p := p) (by omega) hlow.le hsmall
    refine knows_of_width (3 * degrees / 500) hcontains ?_ ?_
    · have hwidth := smallTangentEnclosure_width hp hlow.le hsmall
      nlinarith
    · exact ((Rat.cast_le.2 hbetween.le_low).trans hcontains.low_le).trans (le_abs_self _)
  · rename_i hlarge
    rw [if_neg hlarge]
    have hrest : 0 < 90 - degrees := by linarith
    have hbetween := smallTangentEnclosure_between (p := p) (by omega) hrest.le (by linarith)
    have hinverse := between_inverse (by linarith) hbetween
    -- The reciprocal is as large as the rest of the angle is small, and its width is divided by
    -- the square of that.
    refine knows_of_width (1 / (3 * (90 - degrees) / 40)) hcontains ?_ ?_
    · have hwidth := smallTangentEnclosure_width hp hrest.le (by linarith)
      refine (width_inverse_le (by linarith) hbetween).trans ?_
      rw [div_le_iff₀ (by positivity)]
      have hvalue : 20000 * (1 / (3 * (90 - degrees) / 40)) * narrow *
          (3 * (90 - degrees) / 500 * (3 * (90 - degrees) / 500)) =
            48 / 5 * (90 - degrees) * narrow := by
        field_simp
        ring
      rw [hvalue]
      nlinarith
    · exact ((Rat.cast_le.2 hinverse.le_low).trans hcontains.low_le).trans (le_abs_self _)

/-- The sine of an acute angle is accurate. -/
theorem acuteSine_error (hlow : 0 ≤ degrees) (hhigh : degrees ≤ 90) :
    |(acuteSine 60 degrees : ℝ) - Real.sin (radians degrees)| ≤
      |Real.sin (radians degrees)| / 2 ^ 59 := by
  simp only [acuteSine]
  split
  · rename_i hzero
    simp [hzero, radians_zero]
  split
  · rename_i hthirty
    rw [hthirty, radians_thirty, Real.sin_pi_div_six]
    norm_num
  split
  · rename_i hninety
    rw [hninety, radians_ninety, Real.sin_pi_div_two]
    norm_num
  · rename_i hzero _ hninety
    have hpositive := lt_of_le_of_ne hlow (Ne.symm hzero)
    have hbelow := lt_of_le_of_ne hhigh hninety
    exact error_round_le (fun p hp => acuteSineEnclosure_contains hp hpositive hbelow)
      fun p hp => (acuteSineEnclosure_knows hp hpositive hbelow).mono (by norm_num)

/-- So is its tangent. -/
theorem acuteTangent_error (hlow : 0 ≤ degrees) (hhigh : degrees < 90) :
    |(acuteTangent 60 degrees : ℝ) - Real.tan (radians degrees)| ≤
      |Real.tan (radians degrees)| / 2 ^ 59 := by
  simp only [acuteTangent]
  split
  · rename_i hzero
    simp [hzero, radians_zero]
  split
  · rename_i hfortyFive
    rw [hfortyFive, radians_fortyFive, Real.tan_pi_div_four]
    norm_num
  · rename_i hzero _
    have hpositive := lt_of_le_of_ne hlow (Ne.symm hzero)
    exact error_round_le (fun p hp => acuteTangentEnclosure_contains hp hpositive hhigh)
      fun p hp => (acuteTangentEnclosure_knows hp hpositive hhigh).mono (by norm_num)

end Acute

section Angles

variable {angle v : Rat}

/-- A sign does not matter for the error. -/
theorem error_signed_le {r : ℝ} (h : |(v : ℝ) - r| ≤ |r| / 2 ^ 59) (negative : Bool) :
    |(Double.signed negative v : ℝ) - if negative then -r else r| ≤
      |if negative then -r else r| / 2 ^ 59 := by
  cases negative with
  | false => exact h
  | true =>
      simp only [Double.signed, if_true, Rat.cast_neg, abs_neg]
      rwa [← neg_sub', abs_neg]

/-- The sine of an angle of any size is accurate. -/
theorem sineDegrees_error (angle : Rat) :
    |(sineDegrees 60 angle : ℝ) - Real.sin (radians angle)| ≤
      |Real.sin (radians angle)| / 2 ^ 59 := by
  rcases foldTurn_bounds angle with ⟨hlow, hhigh⟩
  have hfolds := folds_foldTurn angle
  rw [sin_of_folds hfolds, sineDegrees_of_folds 60 hfolds hlow hhigh]
  exact error_signed_le (acuteSine_error hlow hhigh) _

/-- The cosine is the sine a quarter of a turn ahead. -/
theorem cosineDegrees_error (angle : Rat) :
    |(cosineDegrees 60 angle : ℝ) - Real.cos (radians angle)| ≤
      |Real.cos (radians angle)| / 2 ^ 59 := by
  have herror := sineDegrees_error (angle + 90)
  rwa [radians_add, radians_ninety, Real.sin_add_pi_div_two] at herror

/-- The tangent is accurate where there is one. -/
theorem tangentDegrees?_error (hvalue : tangentDegrees? 60 angle = some v) :
    |(v : ℝ) - Real.tan (radians angle)| ≤ |Real.tan (radians angle)| / 2 ^ 59 := by
  rcases foldHalfTurn_bounds angle with ⟨hlow, hhigh⟩
  have hfolds := folds_foldHalfTurn angle
  rw [tangentDegrees?_of_folds 60 hfolds hlow hhigh] at hvalue
  rw [tan_of_folds hfolds]
  split at hvalue
  · cases hvalue
  · rename_i hother
    cases hvalue
    exact error_signed_le (acuteTangent_error hlow (lt_of_le_of_ne hhigh hother)) _

end Angles

end Elementary

end Reckoner
