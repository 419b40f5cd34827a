import Mathlib
import Reckoner.Proofs.Elementary.Folding
import Reckoner.Proofs.Number.Notation
import Reckoner.Proofs.Operation.Domain

/-!
# Trigonometry Is Exact in the Angle

A trigonometric function is applied to the decimal that its argument is shown as, and that
decimal is reduced exactly. So nothing depends on how large the argument is: what is shown as
decimals that differ by full turns has one sine and one cosine, and by half turns one tangent,
or none for both. The opposite number is shown as the opposite decimal, and rounding to a
double does not look at the sign, so the functions are odd and even as the real ones are. The
gate behind them takes the sign off a zero, and that is all that can come between.

What is rounded is never above one for sines and cosines, and where the real value is a zero, a
half or a one, it is this value.

## Main definitions

* `Double.ofAngle`: The double that a value at an angle becomes.
* `Unary.settled`: The outcome of a function: its value, or that it is undefined.

## Theorems

* `Double.seen?_neg`, `Double.ofAngle_neg`: Opposite numbers.
* `applyFunction_sine`, `applyFunction_cosine`, `applyFunction_tangent`: The functions on a
  double.
* `trigonometry_rounded`: Their values are the real ones, rounded.
* `trigonometry_exact`: Periods, symmetries, bounds and exact values.
-/

namespace Reckoner

namespace Double

/-- The opposite number is shown with the opposite sign. -/
theorem seen?_neg (x : Double) : (-x).seen? = x.seen?.map fun q => -q := by
  cases x with
  | infinite s => rfl
  | nan => rfl
  | finite s m e hc =>
      change (decimal? (finite (!s) m e hc)).map (fun d => signed (!s) d.toRat) = _
      simp only [seen?, Option.map_map, Function.comp_def, signed_not]
      rfl

theorem ofRat_neg_of_pos {v : Rat} (hv : 0 < v) : ofRat (-v) = -ofRat v := by
  rw [ofRat, ofRat, decide_eq_true (neg_neg_of_pos hv), decide_eq_false (not_lt.2 hv.le),
    Rat.abs_of_nonpos (neg_nonpos.2 hv.le), Rat.abs_of_nonneg hv.le, Rat.neg_neg,
    Numeral.ofMagnitude_true]

theorem unsignedZero_neg_unsignedZero (x : Double) :
    (-x.unsignedZero).unsignedZero = (-x).unsignedZero := by
  cases x with
  | infinite s => rfl
  | nan => rfl
  | finite s m e hc =>
      change _ = (finite (!s) m e hc).unsignedZero
      by_cases hm : m = 0
      · simp only [unsignedZero, isZero, hm, beq_self_eq_true, if_true]
        rfl
      · simp only [unsignedZero, isZero, beq_eq_false_iff_ne.2 hm, Bool.false_eq_true, if_false]
        change (if m == 0 then zero else finite (!s) m e hc) = _
        rw [if_neg (by simpa using hm)]

/-- The double that a value at an angle becomes. -/
def ofAngle (v : Rat) : Double := (ofRat v).unsignedZero

/-- The opposite value becomes the opposite double, up to the sign of a zero. -/
theorem ofAngle_neg (v : Rat) : ofAngle (-v) = (-ofAngle v).unsignedZero := by
  rw [ofAngle, ofAngle, unsignedZero_neg_unsignedZero]
  rcases lt_trichotomy v 0 with hneg | rfl | hpos
  · have hopposite := ofRat_neg_of_pos (neg_pos.2 hneg)
    rw [Rat.neg_neg] at hopposite
    rw [hopposite, neg_neg]
  · have hzero := toRat?_ofRat toRat?_zero
    rw [Rat.neg_zero]
    exact unsignedZero_eq_of_toRat? hzero (by rw [toRat_neg, hzero, Option.map_some, Rat.neg_zero])
  · rw [ofRat_neg_of_pos hpos]

/-- A value that is at most one becomes a double that is. -/
theorem ofAngle_le_one {v : Rat} (hv : |v| ≤ 1) :
    ∃ a, (ofAngle v).toRat? = some a ∧ |a| ≤ 1 := by
  have hunit : (finite false (2 ^ 52) (-52) (by decide)).toRat? = some 1 := by
    norm_num [toRat?, signed, magnitude]
  have hone := toRat?_ofRat hunit
  have hminus : (ofRat (-1)).toRat? = some (-1) := by
    rw [ofRat_neg_of_pos one_pos, toRat_neg, hone, Option.map_some]
  have hfinite := isFinite_ofRat (hv.trans_lt (one_lt_zpow₀ (by norm_num) (by norm_num)))
  rcases exists_toRat? hfinite with ⟨a, ha⟩
  have hrounded := isRounded_ofRat v
  refine ⟨a, by rw [ofAngle, toRat?_unsignedZero, ha], ?_⟩
  rw [abs_le] at hv ⊢
  exact ⟨(isRounded_self hminus).mono hrounded hv.1 hminus ha,
    hrounded.mono (isRounded_self hone) hv.2 ha hone⟩

/-- The exact values are doubles, and zero has no sign. -/
theorem ofAngle_of_exact {v : Rat} (hv : v ∈ Elementary.exactValues) : ofAngle v = ofRat v := by
  have hall : ∀ v ∈ Elementary.exactValues, ofAngle v = ofRat v := by decide +kernel
  exact hall v hv

end Double

namespace Unary

/-- The outcome of a function: its value, or that it is undefined for this argument. -/
def settled (f : Unary) (x : Double) : Option Double → Except Failure Double
  | some value => .ok value
  | none => .error (.rejection (.math (.undefined (f.calculation x))))

end Unary

section Functions

variable {f : Unary} {x : Double} {q v : Rat}

theorem applyFunction_of_value {library : Numerics} (hf : f.isTrigonometric = true)
    (hq : x.seen? = some q) (hvalue : library.value? f q = some v)
    (hsize : |v| < (2 : Rat) ^ (1023 : Int)) :
    applyFunction f.name x = .ok (Double.ofAngle v) := by
  simp only [applyFunction, Unary.ofName?_name, Unary.calculate_of_value hf hq hvalue hsize]
  rfl

theorem applyFunction_sine (hq : x.seen? = some q) :
    applyFunction "sin" x = .ok (Double.ofAngle (Elementary.sineDegrees Unary.workingBits q)) := by
  have hbound := Elementary.abs_sineDegrees_le_one (by decide : 2 ≤ Unary.workingBits) q
  exact applyFunction_of_value (f := .sine) rfl hq rfl
    (hbound.trans_lt (one_lt_zpow₀ (by norm_num) (by norm_num)))

theorem applyFunction_cosine (hq : x.seen? = some q) : applyFunction "cos" x =
    .ok (Double.ofAngle (Elementary.cosineDegrees Unary.workingBits q)) := by
  have hbound := Elementary.abs_sineDegrees_le_one (by decide : 2 ≤ Unary.workingBits) (q + 90)
  exact applyFunction_of_value (f := .cosine) rfl hq rfl
    (hbound.trans_lt (one_lt_zpow₀ (by norm_num) (by norm_num)))

/-- No tangent is too large. -/
theorem abs_tangent_lt (hq : x.seen? = some q)
    (hvalue : Elementary.tangentDegrees? Unary.workingBits q = some v) :
    |v| < (2 : Rat) ^ (1023 : Int) := by
  have hpole : ¬ Elementary.IsPole q := by
    rw [← Elementary.tangentDegrees?_eq_none_iff Unary.workingBits, hvalue]
    nofun
  have hnear : Near v (Real.tan (Elementary.radians q)) :=
    ⟨Elementary.tangentDegrees?_error hvalue⟩
  exact hnear.abs_lt (by norm_num) (Unary.abs_tan_le hq hpole)

theorem applyFunction_tangent (hq : x.seen? = some q) : applyFunction "tan" x =
    Unary.tangent.settled x
      ((Elementary.tangentDegrees? Unary.workingBits q).map Double.ofAngle) := by
  have hname : Unary.ofName? "tan" = some .tangent := Unary.ofName?_name .tangent
  cases hvalue : Elementary.tangentDegrees? Unary.workingBits q with
  | none =>
      have hnone : Numerics.reference.value? .tangent q = none := hvalue
      simp only [applyFunction, hname, Unary.calculate, Unary.calculateSeen, hq, hnone,
        Option.map_none, Unary.settled]
  | some v => exact applyFunction_of_value (f := .tangent) rfl hq hvalue (abs_tangent_lt hq hvalue)

/-- The values are the real ones, rounded to the working precision, if the enclosures settle. -/
theorem trigonometry_rounded (hq : x.seen? = some q) :
    (Elementary.SineSettles 60 q → ∃ v, applyFunction "sin" x = .ok (Double.ofAngle v) ∧
      Rounding.IsRoundedTo 60 (Real.sin (Elementary.radians q)) v) ∧
    (Elementary.SineSettles 60 (q + 90) → ∃ v, applyFunction "cos" x = .ok (Double.ofAngle v) ∧
      Rounding.IsRoundedTo 60 (Real.cos (Elementary.radians q)) v) ∧
    (Elementary.TangentSettles 60 q → ¬ Elementary.IsPole q →
      ∃ v, applyFunction "tan" x = .ok (Double.ofAngle v) ∧
        Rounding.IsRoundedTo 60 (Real.tan (Elementary.radians q)) v) := by
  have hbits : 2 ≤ 60 := by norm_num
  refine ⟨fun hsettles => ⟨_, applyFunction_sine hq,
      Elementary.sineDegrees_isRoundedTo hbits hsettles⟩,
    fun hsettles => ⟨_, applyFunction_cosine hq,
      Elementary.cosineDegrees_isRoundedTo hbits hsettles⟩, fun hsettles hpole => ?_⟩
  cases hvalue : Elementary.tangentDegrees? 60 q with
  | none => exact absurd ((Elementary.tangentDegrees?_eq_none_iff 60 q).1 hvalue) hpole
  | some v =>
      exact ⟨v, applyFunction_of_value (f := .tangent) rfl hq hvalue (abs_tangent_lt hq hvalue),
        Elementary.tangentDegrees?_isRoundedTo hbits hsettles hvalue⟩

end Functions

/-- Let two numbers be shown as two decimals. If these differ by full turns, the numbers have one
    sine and one cosine, and if they differ by half turns, one tangent or none. The opposite
    number has the opposite sine and tangent, up to the sign of a zero, and the same cosine. No
    sine or cosine is larger than one. Where the real value is zero, a half or one with either
    sign, the function has exactly this value, and zero has no sign. For the tangent that is said
    of the multiples of 45 degrees that are not poles. -/
theorem trigonometry_exact {x y : Double} (hx : x.isFinite = true) (hy : y.isFinite = true) :
    ∃ q q', x.seen? = some q ∧ y.seen? = some q' ∧
      (∃ s, applyFunction "sin" x = .ok s ∧
        (∀ k : Int, q - q' = 360 * k → applyFunction "sin" y = .ok s) ∧
        applyFunction "sin" (-x) = .ok (-s).unsignedZero ∧
        (∃ a, s.toRat? = some a ∧ |a| ≤ 1) ∧
        ∀ v ∈ Elementary.exactValues, Real.sin (Elementary.radians q) = v →
          s = Double.ofRat v) ∧
      (∃ c, applyFunction "cos" x = .ok c ∧
        (∀ k : Int, q - q' = 360 * k → applyFunction "cos" y = .ok c) ∧
        applyFunction "cos" (-x) = .ok c ∧
        (∃ a, c.toRat? = some a ∧ |a| ≤ 1) ∧
        ∀ v ∈ Elementary.exactValues, Real.cos (Elementary.radians q) = v →
          c = Double.ofRat v) ∧
      ∃ t : Option Double, applyFunction "tan" x = Unary.tangent.settled x t ∧
        (∀ k : Int, q - q' = 180 * k → applyFunction "tan" y = Unary.tangent.settled y t) ∧
        applyFunction "tan" (-x) =
          Unary.tangent.settled (-x) (t.map fun value => (-value).unsignedZero) ∧
        ∀ n : Int, q = 45 * n → Real.cos (Elementary.radians q) ≠ 0 →
          ∀ v ∈ Elementary.exactValues, Real.tan (Elementary.radians q) = v →
            t = some (Double.ofRat v) := by
  rcases Double.seen?_of_isFinite hx with ⟨q, hq⟩
  rcases Double.seen?_of_isFinite hy with ⟨q', hq'⟩
  have hopposite : (-x).seen? = some (-q) := by rw [Double.seen?_neg, hq, Option.map_some]
  have hbits : 2 ≤ Unary.workingBits := by decide
  have hbound := Elementary.abs_sineDegrees_le_one hbits
  -- Turns are taken off the first angle to get to the second one.
  have hturns : ∀ {period : Rat} {k : Int}, q - q' = period * k →
      q' = q + period * ((-k : Int) : Rat) := by
    intro period k hk
    push_cast
    linarith
  refine ⟨q, q', hq, hq', ⟨_, applyFunction_sine hq, fun k hk => ?_, ?_, ?_, fun v hv hsin => ?_⟩,
    ⟨_, applyFunction_cosine hq, fun k hk => ?_, ?_, ?_, fun v hv hcos => ?_⟩,
    ⟨_, applyFunction_tangent hq, fun k hk => ?_, ?_, fun n hn hcos v hv htan => ?_⟩⟩
  · rw [applyFunction_sine hq', hturns hk, Elementary.sineDegrees_add_turns]
  · rw [applyFunction_sine hopposite, Elementary.sineDegrees_neg, Double.ofAngle_neg]
  · exact Double.ofAngle_le_one (hbound q)
  · rw [Elementary.sineDegrees_of_exact hbits hv hsin, Double.ofAngle_of_exact hv]
  · rw [applyFunction_cosine hq', hturns hk, Elementary.cosineDegrees_add_turns]
  · rw [applyFunction_cosine hopposite, Elementary.cosineDegrees_neg]
  · exact Double.ofAngle_le_one (hbound (q + 90))
  · rw [Elementary.cosineDegrees_of_exact hbits hv hcos, Double.ofAngle_of_exact hv]
  · rw [applyFunction_tangent hq', hturns hk, Elementary.tangentDegrees?_add_halfTurns]
  · rw [applyFunction_tangent hopposite, Elementary.tangentDegrees?_neg, Option.map_map,
      Option.map_map]
    congr 2
    exact funext Double.ofAngle_neg
  · rw [Elementary.tangentDegrees?_of_exact hbits hv hn hcos htan, Option.map_some,
      Double.ofAngle_of_exact hv]

/-- After a hundred thousand million turns and 30 degrees more the sine is a half again. -/
theorem trigonometry_exact_turns :
    applyFunction "sin" (Double.ofRat 36000000000030) = .ok (Double.ofRat (1 / 2)) := by
  have hseen : (Double.ofRat 36000000000030).seen? = some 36000000000030 := by decide +kernel
  have hseen' : (Double.ofRat 30).seen? = some 30 := by decide +kernel
  -- The sine of 30 is exact, and the other angle differs by full turns from it.
  rcases trigonometry_exact (x := Double.ofRat 30) (y := Double.ofRat 36000000000030)
    (by decide +kernel) (by decide +kernel) with ⟨q, q', hq, hq', ⟨s, -, hturns, -, -, hexact⟩, -⟩
  obtain rfl : 30 = q := by simpa [hseen'] using hq
  obtain rfl : 36000000000030 = q' := by simpa [hseen] using hq'
  rw [hturns (-100000000000) (by norm_num), hexact (1 / 2) (by simp [Elementary.exactValues]) ?_]
  rw [Elementary.radians_thirty, Real.sin_pi_div_six]
  norm_num

end Reckoner
