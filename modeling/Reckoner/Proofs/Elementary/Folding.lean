import Mathlib
import Reckoner.Proofs.Elementary.Circle

/-!
# Angles That Fold Alike

An angle is folded into the first quadrant before anything is computed, and only the remainder
after full turns is looked at for that. What this means for the function is said in terms of
the angle itself: `Folds` lists the four ways in which an angle is made of an acute one and of
full turns, and `FoldsHalf` the two for half turns. At the ends of the quadrants an angle can be
seen in two ways, and the values there agree, because a sine of zero has no sign.

Turning an angle around, reflecting it or adding a turn to it takes one such way to another.
So sines and cosines repeat after a turn and tangents after half a turn, whatever the angle is,
and the sine and the tangent are odd and the cosine even. The real functions are folded in
the same way, and so the rounding carries over from acute angles to all.

## Main definitions

* `Folds`, `FoldsHalf`: An angle, the acute one it is folded to, and the sign.
* `SineSettles`, `TangentSettles`: The enclosures of the folded angle settle.

## Theorems

* `folds_foldTurn`, `folds_foldHalfTurn`: Folding is one of the ways.
* `sineDegrees_of_folds`, `tangentDegrees?_of_folds`: Either way comes to the same value.
* `sin_of_folds`, `tan_of_folds`: And to the same real value.
* `sineDegrees_add_turns`, `sineDegrees_neg`, `sineDegrees_reflect`: Symmetries of the sine.
* `tangentDegrees?_add_halfTurns`, `tangentDegrees?_neg`: Symmetries of the tangent.
* `sineDegrees_isRoundedTo`, `tangentDegrees?_isRoundedTo`: Values at all angles are rounded.
* `abs_sineDegrees_le_one`: No sine is larger than one.
-/

namespace Reckoner

theorem Double.signed_not (negative : Bool) (q : Rat) :
    signed (!negative) q = -signed negative q := by
  cases negative <;> simp [signed]

namespace Elementary

/-- The angle has the sine of an acute one, with a minus sign if it is negative: it is made of
    full turns and of the acute angle in one of the four quadrants. -/
inductive Folds (acute angle : Rat) : Bool → Prop
  | first (turns : Int) (h : angle = 360 * turns + acute) : Folds acute angle false
  | second (turns : Int) (h : angle = 360 * turns + (180 - acute)) : Folds acute angle false
  | third (turns : Int) (h : angle = 360 * turns + (180 + acute)) : Folds acute angle true
  | fourth (turns : Int) (h : angle = 360 * turns - acute) : Folds acute angle true

/-- The angle has the tangent of an acute one, with a minus sign if it is negative. -/
inductive FoldsHalf (acute angle : Rat) : Bool → Prop
  | first (halfTurns : Int) (h : angle = 180 * halfTurns + acute) : FoldsHalf acute angle false
  | second (halfTurns : Int) (h : angle = 180 * halfTurns - acute) : FoldsHalf acute angle true

section Folding

variable {acute angle : Rat} {negative : Bool}

/-- The remainder is the only number below the period that differs by whole periods. -/
theorem angleMod_eq {period rest : Rat} {k : Int} (hangle : angle = period * k + rest)
    (hlow : 0 ≤ rest) (hhigh : rest < period) : angleMod angle period = rest := by
  have hperiod : 0 < period := hlow.trans_lt hhigh
  have hfloor : ⌊angle / period⌋ = k := by
    refine Int.floor_eq_iff.2 ⟨?_, ?_⟩
    · rw [le_div_iff₀ hperiod]
      linarith
    · rw [div_lt_iff₀ hperiod]
      linarith
  have hrest : angleMod angle period = angle - period * ⌊angle / period⌋ := rfl
  rw [hrest, hfloor, hangle]
  ring

theorem folds_foldTurn (angle : Rat) :
    Folds (foldTurn angle).acute angle (foldTurn angle).negative := by
  rcases angleMod_bounds angle (by norm_num : (0 : Rat) < 360) with ⟨-, -, hsplit⟩
  simp only [foldTurn]
  split_ifs
  · exact .first ⌊angle / 360⌋ hsplit
  · exact .second ⌊angle / 360⌋ (by simp only; linarith)
  · exact .third ⌊angle / 360⌋ (by simp only; linarith)
  · exact .fourth (⌊angle / 360⌋ + 1) (by simp only; push_cast; linarith)

theorem folds_foldHalfTurn (angle : Rat) :
    FoldsHalf (foldHalfTurn angle).acute angle (foldHalfTurn angle).negative := by
  rcases angleMod_bounds angle (by norm_num : (0 : Rat) < 180) with ⟨-, -, hsplit⟩
  simp only [foldHalfTurn]
  split_ifs
  · exact .first ⌊angle / 180⌋ hsplit
  · exact .second (⌊angle / 180⌋ + 1) (by simp only; push_cast; linarith)

theorem Folds.add_turns (h : Folds acute angle negative) (k : Int) :
    Folds acute (angle + 360 * k) negative := by
  rcases h with ⟨n, h⟩ | ⟨n, h⟩ | ⟨n, h⟩ | ⟨n, h⟩
  · exact .first (n + k) (by push_cast; linarith)
  · exact .second (n + k) (by push_cast; linarith)
  · exact .third (n + k) (by push_cast; linarith)
  · exact .fourth (n + k) (by push_cast; linarith)

theorem Folds.neg (h : Folds acute angle negative) : Folds acute (-angle) (!negative) := by
  rcases h with ⟨n, h⟩ | ⟨n, h⟩ | ⟨n, h⟩ | ⟨n, h⟩
  · exact .fourth (-n) (by push_cast; linarith)
  · exact .third (-n - 1) (by push_cast; linarith)
  · exact .second (-n - 1) (by push_cast; linarith)
  · exact .first (-n) (by push_cast; linarith)

theorem Folds.reflect (h : Folds acute angle negative) : Folds acute (180 - angle) negative := by
  rcases h with ⟨n, h⟩ | ⟨n, h⟩ | ⟨n, h⟩ | ⟨n, h⟩
  · exact .second (-n) (by push_cast; linarith)
  · exact .first (-n) (by push_cast; linarith)
  · exact .fourth (-n) (by push_cast; linarith)
  · exact .third (-n) (by push_cast; linarith)

theorem FoldsHalf.add_halfTurns (h : FoldsHalf acute angle negative) (k : Int) :
    FoldsHalf acute (angle + 180 * k) negative := by
  rcases h with ⟨n, h⟩ | ⟨n, h⟩
  · exact .first (n + k) (by push_cast; linarith)
  · exact .second (n + k) (by push_cast; linarith)

theorem FoldsHalf.neg (h : FoldsHalf acute angle negative) :
    FoldsHalf acute (-angle) (!negative) := by
  rcases h with ⟨n, h⟩ | ⟨n, h⟩
  · exact .second (-n) (by push_cast; linarith)
  · exact .first (-n) (by push_cast; linarith)

end Folding

section Values

variable {bits : Nat} {acute angle : Rat} {negative : Bool}

theorem acuteSine_zero (bits : Nat) : acuteSine bits 0 = 0 := if_pos rfl

theorem acuteTangent_zero (bits : Nat) : acuteTangent bits 0 = 0 := if_pos rfl

theorem Folded.apply_eq_signed (f : Folded) (value : Rat → Rat) :
    f.apply value = Double.signed f.negative (value f.acute) := rfl

/-- The sine is that of the acute angle, in whichever way the angle is made of it. -/
theorem sineDegrees_of_folds (bits : Nat) (h : Folds acute angle negative) (hlow : 0 ≤ acute)
    (hhigh : acute ≤ 90) :
    sineDegrees bits angle = Double.signed negative (acuteSine bits acute) := by
  -- Where two quadrants meet, the angle is folded as one of the first or the second of them.
  suffices hfold : foldTurn angle = ⟨negative, acute⟩ ∨
      acute = 0 ∧ foldTurn angle = ⟨false, acute⟩ by
    rcases hfold with hfold | ⟨rfl, hfold⟩
    · rw [sineDegrees, hfold, Folded.apply_eq_signed]
    · rw [sineDegrees, hfold, Folded.apply_eq_signed, acuteSine_zero, Double.signed_zero,
        Double.signed_zero]
  rcases h with ⟨n, h⟩ | ⟨n, h⟩ | ⟨n, h⟩ | ⟨n, h⟩
  · simp only [foldTurn, angleMod_eq h hlow (by linarith), if_pos hhigh, true_or]
  · simp only [foldTurn, angleMod_eq h (by linarith) (by linarith)]
    refine .inl ?_
    rcases hhigh.eq_or_lt with rfl | hlt
    · norm_num
    · rw [if_neg (by linarith), if_pos (by linarith), sub_sub_cancel]
  · simp only [foldTurn, angleMod_eq h (by linarith) (by linarith)]
    rcases hlow.eq_or_lt with rfl | hpos
    · norm_num
    · rw [if_neg (by linarith), if_neg (by linarith), if_pos (by linarith), add_sub_cancel_left]
      exact .inl rfl
  · rcases hlow.eq_or_lt with rfl | hpos
    · have hrest : angleMod angle 360 = 0 := angleMod_eq (k := n) (by linarith) le_rfl (by norm_num)
      simp only [foldTurn, hrest]
      norm_num
    · have hrest : angleMod angle 360 = 360 - acute :=
        angleMod_eq (k := n - 1) (by push_cast; linarith) (by linarith) (by linarith)
      simp only [foldTurn, hrest]
      refine .inl ?_
      rw [if_neg (by linarith), if_neg (by linarith)]
      rcases hhigh.eq_or_lt with rfl | hlt
      · norm_num
      · rw [if_neg (by linarith), sub_sub_cancel]

theorem foldHalfTurn_bounds (angle : Rat) :
    0 ≤ (foldHalfTurn angle).acute ∧ (foldHalfTurn angle).acute ≤ 90 := by
  rcases angleMod_bounds angle (by norm_num : (0 : Rat) < 180) with ⟨hlow, hhigh, -⟩
  simp only [foldHalfTurn]
  split_ifs <;> constructor <;> simp only <;> linarith

/-- So is the tangent, which there is none of if the acute angle is a right one. -/
theorem tangentDegrees?_of_folds (bits : Nat) (h : FoldsHalf acute angle negative)
    (hlow : 0 ≤ acute) (hhigh : acute ≤ 90) : tangentDegrees? bits angle =
      if acute = 90 then none else some (Double.signed negative (acuteTangent bits acute)) := by
  suffices hfold : foldHalfTurn angle = ⟨negative, acute⟩ ∨
      (acute = 0 ∨ acute = 90) ∧ foldHalfTurn angle = ⟨false, acute⟩ by
    rcases hfold with hfold | ⟨rfl | rfl, hfold⟩
    · simp only [tangentDegrees?, hfold, Folded.apply_eq_signed]
    · simp only [tangentDegrees?, hfold, Folded.apply_eq_signed, acuteTangent_zero,
        Double.signed_zero]
    · simp only [tangentDegrees?, hfold, if_true]
  rcases h with ⟨n, h⟩ | ⟨n, h⟩
  · simp only [foldHalfTurn, angleMod_eq h hlow (by linarith), if_pos hhigh, true_or]
  · rcases hlow.eq_or_lt with rfl | hpos
    · have hrest : angleMod angle 180 = 0 := angleMod_eq (k := n) (by linarith) le_rfl (by norm_num)
      simp only [foldHalfTurn, hrest]
      norm_num
    · have hrest : angleMod angle 180 = 180 - acute :=
        angleMod_eq (k := n - 1) (by push_cast; linarith) (by linarith) (by linarith)
      simp only [foldHalfTurn, hrest]
      rcases hhigh.eq_or_lt with rfl | hlt
      · norm_num
      · rw [if_neg (by linarith), sub_sub_cancel]
        exact .inl rfl

/-- The real sine is folded in the same way. -/
theorem sin_of_folds (h : Folds acute angle negative) : Real.sin (radians angle) =
    if negative then -Real.sin (radians acute) else Real.sin (radians acute) := by
  rcases h with ⟨n, rfl⟩ | ⟨n, rfl⟩ | ⟨n, rfl⟩ | ⟨n, rfl⟩
  · rw [radians_add, radians_turns, add_comm, Real.sin_add_int_mul_two_pi]
    rfl
  · rw [radians_add, radians_turns, radians_sub, radians_halfTurn, add_comm,
      Real.sin_add_int_mul_two_pi, Real.sin_pi_sub]
    rfl
  · rw [radians_add, radians_turns, radians_add, radians_halfTurn, add_comm,
      Real.sin_add_int_mul_two_pi, add_comm, Real.sin_add_pi]
    rfl
  · rw [radians_sub, radians_turns, sub_eq_neg_add, Real.sin_add_int_mul_two_pi, Real.sin_neg]
    rfl

/-- And so is the real tangent. -/
theorem tan_of_folds (h : FoldsHalf acute angle negative) : Real.tan (radians angle) =
    if negative then -Real.tan (radians acute) else Real.tan (radians acute) := by
  rcases h with ⟨n, rfl⟩ | ⟨n, rfl⟩
  · rw [radians_add, radians_halfTurns, add_comm, Real.tan_add_int_mul_pi]
    rfl
  · rw [radians_sub, radians_halfTurns, sub_eq_neg_add, Real.tan_add_int_mul_pi, Real.tan_neg]
    rfl

end Values

section Symmetries

variable {bits : Nat}

/-- Sines repeat after full turns. -/
theorem sineDegrees_add_turns (bits : Nat) (angle : Rat) (k : Int) :
    sineDegrees bits (angle + 360 * k) = sineDegrees bits angle := by
  rcases foldTurn_bounds angle with ⟨hlow, hhigh⟩
  have hfolds := folds_foldTurn angle
  rw [sineDegrees_of_folds bits (hfolds.add_turns k) hlow hhigh,
    sineDegrees_of_folds bits hfolds hlow hhigh]

/-- The sine is odd. -/
theorem sineDegrees_neg (bits : Nat) (angle : Rat) :
    sineDegrees bits (-angle) = -sineDegrees bits angle := by
  rcases foldTurn_bounds angle with ⟨hlow, hhigh⟩
  have hfolds := folds_foldTurn angle
  rw [sineDegrees_of_folds bits hfolds.neg hlow hhigh,
    sineDegrees_of_folds bits hfolds hlow hhigh, Double.signed_not]

theorem sineDegrees_reflect (bits : Nat) (angle : Rat) :
    sineDegrees bits (180 - angle) = sineDegrees bits angle := by
  rcases foldTurn_bounds angle with ⟨hlow, hhigh⟩
  have hfolds := folds_foldTurn angle
  rw [sineDegrees_of_folds bits hfolds.reflect hlow hhigh,
    sineDegrees_of_folds bits hfolds hlow hhigh]

theorem cosineDegrees_add_turns (bits : Nat) (angle : Rat) (k : Int) :
    cosineDegrees bits (angle + 360 * k) = cosineDegrees bits angle := by
  rw [cosineDegrees, add_right_comm, sineDegrees_add_turns, cosineDegrees]

/-- The cosine is even. -/
theorem cosineDegrees_neg (bits : Nat) (angle : Rat) :
    cosineDegrees bits (-angle) = cosineDegrees bits angle := by
  rw [cosineDegrees, cosineDegrees, ← sineDegrees_reflect bits (angle + 90)]
  congr 1
  ring

/-- Tangents repeat after half turns. -/
theorem tangentDegrees?_add_halfTurns (bits : Nat) (angle : Rat) (k : Int) :
    tangentDegrees? bits (angle + 180 * k) = tangentDegrees? bits angle := by
  rcases foldHalfTurn_bounds angle with ⟨hlow, hhigh⟩
  have hfolds := folds_foldHalfTurn angle
  rw [tangentDegrees?_of_folds bits (hfolds.add_halfTurns k) hlow hhigh,
    tangentDegrees?_of_folds bits hfolds hlow hhigh]

/-- The tangent is odd. -/
theorem tangentDegrees?_neg (bits : Nat) (angle : Rat) :
    tangentDegrees? bits (-angle) = (tangentDegrees? bits angle).map fun v => -v := by
  rcases foldHalfTurn_bounds angle with ⟨hlow, hhigh⟩
  have hfolds := folds_foldHalfTurn angle
  rw [tangentDegrees?_of_folds bits hfolds.neg hlow hhigh,
    tangentDegrees?_of_folds bits hfolds hlow hhigh]
  split
  · rfl
  · rw [Double.signed_not]
    rfl

end Symmetries

section Rounding

variable {bits : Nat} {angle v : Rat}

/-- The enclosures of the folded angle settle, if its sine is not known anyway. -/
def SineSettles (bits : Nat) (angle : Rat) : Prop :=
  (foldTurn angle).acute ≠ 0 → (foldTurn angle).acute ≠ 30 → (foldTurn angle).acute ≠ 90 →
    Enclosure.Settles bits fun p => acuteSineEnclosure p (foldTurn angle).acute

/-- The enclosures of the folded angle settle, if its tangent is not known anyway. -/
def TangentSettles (bits : Nat) (angle : Rat) : Prop :=
  (foldHalfTurn angle).acute ≠ 0 → (foldHalfTurn angle).acute ≠ 45 →
    Enclosure.Settles bits fun p => acuteTangentEnclosure p (foldHalfTurn angle).acute

/-- A sign does not matter for rounding. -/
theorem isRoundedTo_signed {r : ℝ} (h : Rounding.IsRoundedTo bits r v) (negative : Bool) :
    Rounding.IsRoundedTo bits (if negative then -r else r) (Double.signed negative v) := by
  cases negative with
  | false => exact h
  | true => exact h.neg

/-- The sine of an angle of any size is the real one, rounded, if the enclosures settle. -/
theorem sineDegrees_isRoundedTo (hbits : 2 ≤ bits) (hsettles : SineSettles bits angle) :
    Rounding.IsRoundedTo bits (Real.sin (radians angle)) (sineDegrees bits angle) := by
  rcases foldTurn_bounds angle with ⟨hlow, hhigh⟩
  have hfolds := folds_foldTurn angle
  rw [sin_of_folds hfolds, sineDegrees_of_folds bits hfolds hlow hhigh]
  exact isRoundedTo_signed (acuteSine_isRoundedTo hbits hlow hhigh hsettles) _

/-- The cosine is the sine a quarter of a turn ahead. -/
theorem cosineDegrees_isRoundedTo (hbits : 2 ≤ bits) (hsettles : SineSettles bits (angle + 90)) :
    Rounding.IsRoundedTo bits (Real.cos (radians angle)) (cosineDegrees bits angle) := by
  have hrounded := sineDegrees_isRoundedTo hbits hsettles
  rwa [radians_add, radians_ninety, Real.sin_add_pi_div_two] at hrounded

/-- The tangent is the real one, rounded, where there is one. -/
theorem tangentDegrees?_isRoundedTo (hbits : 2 ≤ bits) (hsettles : TangentSettles bits angle)
    (hvalue : tangentDegrees? bits angle = some v) :
    Rounding.IsRoundedTo bits (Real.tan (radians angle)) v := by
  rcases foldHalfTurn_bounds angle with ⟨hlow, hhigh⟩
  have hfolds := folds_foldHalfTurn angle
  rw [tangentDegrees?_of_folds bits hfolds hlow hhigh] at hvalue
  rw [tan_of_folds hfolds]
  split at hvalue
  · cases hvalue
  · rename_i hother
    cases hvalue
    exact isRoundedTo_signed
      (acuteTangent_isRoundedTo hbits hlow (lt_of_le_of_ne hhigh hother) hsettles) _

/-- At some distance from the poles the real tangent is bounded. It is the reciprocal of the
    tangent of that distance, and a sine is not smaller than its chord. -/
theorem abs_tan_le {gap : Rat} (hgap : 0 < gap)
    (hfar : ∀ n : Int, Odd n → gap ≤ |angle - 90 * n|) :
    |Real.tan (radians angle)| ≤ 90 / gap := by
  rcases exists_pole_distance angle with ⟨n, hn, hacute, hdistance⟩
  have hdistant : gap ≤ 90 - (foldHalfTurn angle).acute := by
    rw [hdistance]
    exact hfar n hn
  have hfolded : |Real.tan (radians angle)| = |Real.tan (radians (foldHalfTurn angle).acute)| := by
    rw [tan_of_folds (folds_foldHalfTurn angle)]
    split
    · rw [abs_neg]
    · rfl
  rw [hfolded]
  generalize hrest : 90 - (foldHalfTurn angle).acute = rest at hdistant
  rw [show (foldHalfTurn angle).acute = 90 - rest by linarith]
  rcases radians_bounds (by linarith : 0 ≤ rest) (by linarith) with ⟨hlow, hhigh⟩
  have hchord := Real.mul_le_sin hlow hhigh
  have hgapReal : (0 : ℝ) < gap := by exact_mod_cast hgap
  have hrestReal : (gap : ℝ) ≤ rest := by exact_mod_cast hdistant
  have hsine : (gap : ℝ) / 90 ≤ Real.sin (radians rest) := by
    refine le_trans ?_ hchord
    rw [radians]
    have hcancel : 2 / Real.pi * (rest * Real.pi / 180) = (rest : ℝ) / 90 := by
      field_simp
      ring
    rw [hcancel]
    linarith
  have hpositive : 0 < Real.sin (radians rest) := lt_of_lt_of_le (by positivity) hsine
  rw [radians_sub, radians_ninety, Real.tan_pi_div_two_sub, Real.tan_eq_sin_div_cos, inv_div,
    abs_div, abs_of_pos hpositive, div_le_div_iff₀ hpositive hgapReal]
  calc |Real.cos (radians rest)| * gap ≤ 1 * gap :=
        mul_le_mul_of_nonneg_right (Real.abs_cos_le_one _) hgapReal.le
    _ ≤ 90 * Real.sin (radians rest) := by linarith

/-- No sine is larger than one, whether the enclosures settle or not. -/
theorem abs_sineDegrees_le_one (hbits : 2 ≤ bits) (angle : Rat) : |sineDegrees bits angle| ≤ 1 := by
  rcases foldTurn_bounds angle with ⟨hlow, hhigh⟩
  rcases acuteSine_bounds hbits hlow hhigh with ⟨hnonneg, hle⟩
  rw [sineDegrees, abs_apply, abs_of_nonneg hnonneg]
  exact hle

end Rounding

section Rational

variable {bits : Nat} {angle v : Rat}

/-- The values of sines and tangents that are known without a series. -/
def exactValues : List Rat := [0, 1 / 2, 1, -1 / 2, -1]

theorem significant_of_exactValues (hbits : 0 < bits) (hv : v ∈ exactValues) :
    Rounding.Significant bits v := by
  simp only [exactValues, List.mem_cons, List.not_mem_nil, or_false] at hv
  rcases hv with rfl | rfl | rfl | rfl | rfl
  · exact Rounding.significant_zero bits
  · exact Rounding.significant_half hbits
  · exact Rounding.significant_one hbits
  · rw [neg_div]
    exact (Rounding.significant_half hbits).neg
  · exact (Rounding.significant_one hbits).neg

theorem abs_of_exactValues (hv : v ∈ exactValues) :
    |(v : ℝ)| = 0 ∨ |(v : ℝ)| = 1 / 2 ∨ |(v : ℝ)| = 1 := by
  simp only [exactValues, List.mem_cons, List.not_mem_nil, or_false] at hv
  rcases hv with rfl | rfl | rfl | rfl | rfl <;> norm_num [abs_div]

/-- Between zero and 90 degrees no two angles have the same sine. -/
theorem eq_of_sin_eq {a b : Rat} (ha : 0 ≤ a) (ha' : a ≤ 90) (hb : 0 ≤ b) (hb' : b ≤ 90)
    (h : Real.sin (radians a) = Real.sin (radians b)) : a = b := by
  have hbounds : ∀ c : Rat, 0 ≤ c → c ≤ 90 →
      radians c ∈ Set.Icc (-(Real.pi / 2)) (Real.pi / 2) := fun c hc hc' =>
    ⟨by linarith [(radians_bounds hc hc').1, Real.pi_pos], (radians_bounds hc hc').2⟩
  have heq := Real.injOn_sin (hbounds a ha ha') (hbounds b hb hb') h
  rw [radians, radians, div_left_inj' (by norm_num), mul_left_inj' Real.pi_pos.ne'] at heq
  exact_mod_cast heq

/-- Where the real sine is one of these values, it is the value that is returned. -/
theorem sineDegrees_of_exact (hbits : 2 ≤ bits) (hv : v ∈ exactValues)
    (hsin : Real.sin (radians angle) = v) : sineDegrees bits angle = v := by
  rcases foldTurn_bounds angle with ⟨hlow, hhigh⟩
  have hfolds := sin_of_folds (folds_foldTurn angle)
  have hnonneg : 0 ≤ Real.sin (radians (foldTurn angle).acute) := by
    rcases radians_bounds hlow hhigh with ⟨hpos, hright⟩
    exact Real.sin_nonneg_of_nonneg_of_le_pi hpos (by linarith [Real.pi_pos])
  have hacute : Real.sin (radians (foldTurn angle).acute) = |(v : ℝ)| := by
    rw [← hsin, hfolds]
    split
    · rw [abs_neg, abs_of_nonneg hnonneg]
    · rw [abs_of_nonneg hnonneg]
  -- The folded angle is one of those whose sines are known, so nothing has to settle.
  have hsettles : SineSettles bits angle := by
    intro hzero hthirty hninety
    rcases abs_of_exactValues hv with habs | habs | habs <;> rw [habs] at hacute
    · exact absurd (eq_of_sin_eq hlow hhigh le_rfl (by norm_num)
        (hacute.trans (by rw [radians_zero, Real.sin_zero]))) hzero
    · exact absurd (eq_of_sin_eq hlow hhigh (by norm_num) (by norm_num)
        (hacute.trans (by rw [radians_thirty, Real.sin_pi_div_six]))) hthirty
    · exact absurd (eq_of_sin_eq hlow hhigh (by norm_num) le_rfl
        (hacute.trans (by rw [radians_ninety, Real.sin_pi_div_two]))) hninety
  have hrounded := sineDegrees_isRoundedTo hbits hsettles
  rw [hsin] at hrounded
  exact hrounded.unique (by omega)
    (Rounding.isRoundedTo_self (significant_of_exactValues (by omega) hv))

/-- So it is for the cosine. -/
theorem cosineDegrees_of_exact (hbits : 2 ≤ bits) (hv : v ∈ exactValues)
    (hcos : Real.cos (radians angle) = v) : cosineDegrees bits angle = v := by
  refine sineDegrees_of_exact hbits hv ?_
  rw [radians_add, radians_ninety, Real.sin_add_pi_div_two, hcos]

/-- A multiple of 45 degrees with a tangent is folded to zero or to 45 degrees. -/
theorem acute_of_multiple {n : Int} (hangle : angle = 45 * n)
    (hother : (foldHalfTurn angle).acute ≠ 90) :
    (foldHalfTurn angle).acute = 0 ∨ (foldHalfTurn angle).acute = 45 := by
  rcases foldHalfTurn_bounds angle with ⟨hlow, hhigh⟩
  have hmultiple : ∃ k : Int, (foldHalfTurn angle).acute = 45 * k := by
    have hfolds := folds_foldHalfTurn angle
    generalize (foldHalfTurn angle).negative = negative at hfolds
    rcases hfolds with ⟨m, h⟩ | ⟨m, h⟩
    · exact ⟨n - 4 * m, by push_cast; linarith⟩
    · exact ⟨4 * m - n, by push_cast; linarith⟩
  rcases hmultiple with ⟨k, hk⟩
  rw [hk] at hlow hhigh hother ⊢
  have hk0 : (0 : Rat) ≤ k := by linarith
  have hk2 : (k : Rat) ≤ 2 := by linarith
  have hcount : k = 0 ∨ k = 1 ∨ k = 2 := by
    have : 0 ≤ k := by exact_mod_cast hk0
    have : k ≤ 2 := by exact_mod_cast hk2
    omega
  rcases hcount with rfl | rfl | rfl
  · exact .inl (by norm_num)
  · exact .inr (by norm_num)
  · exact absurd (by norm_num) hother

/-- At the multiples of 45 degrees where the real tangent is one of these values, it is the
    value that is returned. -/
theorem tangentDegrees?_of_exact (hbits : 2 ≤ bits) (hv : v ∈ exactValues) {n : Int}
    (hangle : angle = 45 * n) (hcos : Real.cos (radians angle) ≠ 0)
    (htan : Real.tan (radians angle) = v) : tangentDegrees? bits angle = some v := by
  cases hvalue : tangentDegrees? bits angle with
  | none =>
      rcases (tangentDegrees?_eq_none_iff bits angle).1 hvalue with ⟨m, ⟨k, rfl⟩, rfl⟩
      refine absurd (Real.cos_eq_zero_iff.2 ⟨k, ?_⟩) hcos
      rw [radians]
      push_cast
      ring
  | some value =>
      have hother : (foldHalfTurn angle).acute ≠ 90 := by
        rw [ne_eq, acute_eq_iff, ← tangentDegrees?_eq_none_iff bits, hvalue]
        rintro ⟨⟩
      have hsettles : TangentSettles bits angle := fun hzero hfortyFive =>
        ((acute_of_multiple hangle hother).elim hzero hfortyFive).elim
      have hrounded := tangentDegrees?_isRoundedTo hbits hsettles hvalue
      rw [htan] at hrounded
      rw [hrounded.unique (by omega)
        (Rounding.isRoundedTo_self (significant_of_exactValues (by omega) hv))]

end Rational

end Elementary

end Reckoner
