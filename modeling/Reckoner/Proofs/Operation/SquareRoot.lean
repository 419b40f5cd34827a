import Mathlib
import Reckoner.Solve
import Reckoner.Proofs.Number.Notation
import Reckoner.Proofs.Number.Shortest
import Reckoner.Proofs.Operation.Clean

/-!
# Square Roots

The square root of a number is the root of the decimal that it is shown as. The library comes
close to the real root, and its value is rounded to a double then. That is not always the double
that is nearest to the real root, and not even the one that rounding to 60 bits first would
come to: the library may cut a root off before it rounds it (`squareRoot_cutOff`).

It is close enough for the rest. All other doubles are further away from a root that is a double
itself, so such a root is exact. Two decimals that are shown differ by so much that their roots
stay in order, in spite of the errors, and rounding to a double keeps the order. And the root of
the smallest number is still far above it, so only zero has the root zero.

## Theorems

* `Double.isRounded_seen`, `Double.seen?_mono`: What numbers are shown as is rounded to them,
  and ordered like them.
* `Near.le_of_apart`: Roots of decimals that are apart stay in order.
* `squareRoot_accurate`: The square root of a number.
* `squareRoot_cutOff`: It is not always the real root, rounded to 60 bits and to a double.
-/

namespace Reckoner

namespace Double

variable {x y : Double} {a b q q' : Rat}

/-- What a number is shown as is rounded to the number. -/
theorem isRounded_seen (hq : x.seen? = some q) : IsRounded q x := by
  cases x with
  | infinite s => cases hq
  | nan => cases hq
  | finite s m e hc =>
      rcases Option.map_eq_some_iff.1 hq with ⟨d, hd, rfl⟩
      have hrounded := isRounded_ofMagnitude s d.toRat_nonneg
      have hpositive : ofMagnitude false d.toRat = finite false m e hc := ofDecimal_of_decimal? hd
      have hvalue : ofMagnitude s d.toRat = finite s m e hc := by
        cases s with
        | false => exact hpositive
        | true =>
            rw [Numeral.ofMagnitude_true, hpositive]
            rfl
      rwa [hvalue] at hrounded

/-- The sign of a zero does not show in the decimal. -/
theorem seen?_unsignedZero (x : Double) : x.unsignedZero.seen? = x.seen? := by
  cases x with
  | infinite s => rfl
  | nan => rfl
  | finite s m e hc =>
      by_cases hm : m = 0
      · subst hm
        rw [seen?_zero]
        simp only [unsignedZero, isZero, beq_self_eq_true, if_true, zero]
        exact seen?_zero false _ _
      · simp [unsignedZero, isZero, hm]

/-- What numbers are shown as is ordered like the numbers. -/
theorem seen?_mono (hx : x.toRat? = some a) (hy : y.toRat? = some b) (hq : x.seen? = some q)
    (hq' : y.seen? = some q') (hle : a ≤ b) : q ≤ q' := by
  by_contra hlt
  rw [not_le] at hlt
  -- Decimals in the other order are rounded in the other order, so the numbers are the same.
  have hge := (isRounded_seen hq').mono (isRounded_seen hq) hlt.le hy hx
  have heq : b = a := le_antisymm hge hle
  subst heq
  have hsame := congrArg seen? (unsignedZero_eq_of_toRat? hx hy)
  rw [seen?_unsignedZero, seen?_unsignedZero, hq, hq'] at hsame
  cases hsame
  exact lt_irrefl _ hlt

theorem seen?_nonneg (hx : x.toRat? = some a) (hq : x.seen? = some q) (ha : 0 ≤ a) : 0 ≤ q :=
  seen?_mono toRat?_zero hx (seen?_zero _ _ _) hq ha

/-- A positive number is at least the smallest one. -/
theorem least_le (hx : x.toRat? = some a) (ha : 0 < a) : (2 : Rat) ^ (-1074 : Int) ≤ a := by
  rcases toRat?_eq_some hx with ⟨s, m, e, hc, rfl, rfl⟩
  have hnonneg := magnitude_nonneg m e
  cases s with
  | true =>
      simp only [signed, if_true] at ha
      linarith
  | false =>
      have hm : m ≠ 0 := (magnitude_pos_iff m e).1 ha
      have hone : (1 : Rat) ≤ m := by exact_mod_cast Nat.one_le_iff_ne_zero.2 hm
      calc (2 : Rat) ^ (-1074 : Int) ≤ (2 : Rat) ^ e := zpow_le_zpow_right₀ (by norm_num) hc.2.1
        _ ≤ (m : Rat) * (2 : Rat) ^ e := le_mul_of_one_le_left (by positivity) hone

/-- A rational that is not smaller than the smallest number is not rounded to zero. -/
theorem IsRounded.pos_of_least_le {v : Rat} (h : IsRounded v x) (hx : x.toRat? = some a)
    (hv : (2 : Rat) ^ (-1074 : Int) ≤ v) : 0 < a := by
  have hleast : (Double.finite false 1 (-1074) (by decide)).toRat? =
      some ((2 : Rat) ^ (-1074 : Int)) := by simp [toRat?, signed, magnitude]
  exact lt_of_lt_of_le (by positivity) ((isRounded_self hleast).mono h hv hleast hx)

/-- What a positive number is shown as is at least half of the smallest one. -/
theorem half_least_le_seen (hx : x.toRat? = some a) (hq : x.seen? = some q) (ha : 0 < a) :
    (2 : Rat) ^ (-1075 : Int) ≤ q := by
  have hnearest := (isRounded_seen hq).le_of_toRat? hx toRat?_zero
  rw [zero_sub, abs_neg, abs_of_nonneg (seen?_nonneg hx hq ha.le)] at hnearest
  have hleast := least_le hx ha
  rw [show (-1074 : Int) = -1075 + 1 by norm_num, zpow_add_one₀ two_ne_zero] at hleast
  linarith [le_abs_self (a - q)]

end Double

section Root

variable {library : Numerics} {x : Double} {a q v : Rat}

/-- What is not negative is rounded to a double without a sign. -/
theorem Double.signBit_ofRat (hv : 0 ≤ v) : (ofRat v).signBit = false := by
  rw [ofRat, signBit_ofMagnitude, decide_eq_false (not_lt.2 hv)]

/-- The square root of a number: the value that the library has for the decimal that the number
    is shown as, rounded to a double, which is finite. -/
theorem applyFunction_squareRoot (h : library.Accurate .squareRoot) (hx : x.toRat? = some a)
    (hq : x.seen? = some q) (ha : 0 ≤ a) : ∃ v, library.value? .squareRoot q = some v ∧
      Near v √(q : ℝ) ∧ applyFunction "sqrt" x = .ok (Double.ofRat v) ∧
      ∃ c, (Double.ofRat v).toRat? = some c := by
  have hfinite := Double.isFinite_of_toRat? hx
  have hsign : x.isNegative = false := by
    rw [Bool.eq_false_iff, ne_eq, Double.isNegative_iff hx]
    exact not_lt.2 ha
  have hname : Unary.ofName? "sqrt" = some .squareRoot := Unary.ofName?_name .squareRoot
  rcases h q (Double.seen?_nonneg hx hq ha) with ⟨v, hv, hnear⟩
  refine ⟨v, hv, hnear, ?_, ?_⟩
  · simp only [applyFunction, hname, Unary.calculate, hsign, Bool.false_eq_true, if_false,
      Unary.calculateSeen_of_value hq hv]
  · have hseen := (Double.seen_of_not_isNegative hfinite hsign hq).imp_left And.right
    exact Double.exists_toRat? (Unary.clean_of_near hnear (Unary.sqrt_size hseen)
      (.inl (Real.sqrt_nonneg _))).1

theorem Near.sqrt_nonneg (h : Near v √(q : ℝ)) : 0 ≤ v := by
  have hreal : (0 : ℝ) ≤ v :=
    (div_nonneg (Real.sqrt_nonneg _) zero_le_two).trans (h.half_le (Real.sqrt_nonneg _))
  exact_mod_cast hreal

/-- If the decimal is the square of a double, the root is rounded to this double. -/
theorem Near.isRounded_of_square {r : Double} {b : Rat} (hr : r.toRat? = some b) (hb : 0 ≤ b)
    (h : Near v √((b * b : Rat) : ℝ)) : Double.IsRounded v r := by
  have hreal : (0 : ℝ) ≤ b := by exact_mod_cast hb
  have hclose := h.error_le
  push_cast at hclose
  rw [Real.sqrt_mul_self hreal, abs_of_nonneg hreal] at hclose
  have hrat : |v - b| ≤ b / 2 ^ 59 := by
    rw [← Rat.cast_le (K := ℝ)]
    push_cast
    exact hclose
  rcases hb.eq_or_lt with rfl | hpos
  · obtain rfl : v = 0 := by simpa using hrat
    exact Double.isRounded_self hr
  · refine Double.isRounded_of_close hr hpos (hrat.trans_lt ?_)
    exact div_lt_div_of_pos_left hpos (by norm_num) (by norm_num)

/-- The roots of two decimals that are apart stay in order, in spite of their errors. -/
theorem Near.le_of_apart {q' v' : Rat} (hq : 0 ≤ q) (h : Near v √(q : ℝ))
    (h' : Near v' √(q' : ℝ)) (hapart : q * (1 + 1 / 10 ^ 17) ≤ q') : v ≤ v' := by
  have herror := h.error_le
  have herror' := h'.error_le
  have hroot := Real.sqrt_nonneg (q : ℝ)
  have hroot' := Real.sqrt_nonneg (q' : ℝ)
  rw [abs_of_nonneg hroot] at herror
  rw [abs_of_nonneg hroot'] at herror'
  -- The roots differ by about half as much, in proportion, as the radicands.
  have hfactor : √(q : ℝ) * (1 + 4 / 10 ^ 18) ≤ √(q' : ℝ) := by
    have hreal := (Rat.cast_le (K := ℝ)).2 hapart
    push_cast at hreal
    have hpositive : (0 : ℝ) ≤ 1 + 4 / 10 ^ 18 := by norm_num
    rw [← Real.sqrt_sq hpositive, ← Real.sqrt_mul' _ (sq_nonneg _)]
    refine Real.sqrt_le_sqrt (le_trans ?_ hreal)
    exact mul_le_mul_of_nonneg_left (by norm_num) (by exact_mod_cast hq)
  have hreal : (v : ℝ) ≤ v' := by
    norm_num at herror herror' hfactor
    linarith [le_abs_self ((v : ℝ) - √(q : ℝ)), neg_abs_le ((v' : ℝ) - √(q' : ℝ))]
  exact_mod_cast hreal

/-- The root of what a positive number is shown as is far above the smallest number. -/
theorem Near.least_le (h : Near v √(q : ℝ)) (hq : (2 : Rat) ^ (-1075 : Int) ≤ q) :
    (2 : Rat) ^ (-1074 : Int) ≤ v := by
  have hroot : (2 : ℝ) ^ (-538 : Int) ≤ √(q : ℝ) := by
    refine Real.le_sqrt_of_sq_le ?_
    have hsquare : ((2 : Rat) ^ (-538 : Int)) ^ 2 ≤ q := by
      refine le_trans ?_ hq
      rw [← zpow_natCast, ← zpow_mul]
      exact zpow_le_zpow_right₀ (by norm_num) (by norm_num)
    have hreal := (Rat.cast_le (K := ℝ)).2 hsquare
    rwa [Rat.cast_pow, Rat.cast_zpow, Rat.cast_ofNat] at hreal
  have hreal : (2 : ℝ) ^ (-1074 : Int) ≤ v :=
    calc (2 : ℝ) ^ (-1074 : Int) ≤ (2 : ℝ) ^ (-538 - 1 : Int) :=
          zpow_le_zpow_right₀ (by norm_num) (by norm_num)
      _ = (2 : ℝ) ^ (-538 : Int) / 2 := by rw [zpow_sub_one₀ two_ne_zero, div_eq_mul_inv]
      _ ≤ √(q : ℝ) / 2 := by linarith
      _ ≤ v := h.half_le (Real.sqrt_nonneg _)
  rwa [← Rat.cast_le (K := ℝ), Rat.cast_zpow, Rat.cast_ofNat]

end Root

/-- With a library that is accurate, the square root of a number that is not negative is the
    real root of the decimal that the number is shown as, up to a small error, and rounded to a
    double then. If that decimal is the square of a double, the root is this double. A larger
    number does not have a smaller root, and only zero has the root zero. -/
theorem squareRoot_accurate {library : Numerics} (h : library.Accurate .squareRoot) {x : Double}
    {a : Rat} (hx : x.toRat? = some a) (ha : 0 ≤ a) :
    ∃ q v result, x.seen? = some q ∧ 0 ≤ q ∧ applyFunction "sqrt" x = .ok result ∧
      Near v √(q : ℝ) ∧ Double.IsRounded v result ∧ result.signBit = false ∧
      (∀ (r : Double) (b : Rat), r.toRat? = some b → 0 ≤ b → q = b * b →
        result = r.unsignedZero) ∧
      (∀ (y : Double) (b : Rat), y.toRat? = some b → a ≤ b → ∃ result' c c',
        applyFunction "sqrt" y = .ok result' ∧ result.toRat? = some c ∧
          result'.toRat? = some c' ∧ c ≤ c') ∧
      (result.isZero = true ↔ a = 0) := by
  rcases Double.seen?_of_isFinite (Double.isFinite_of_toRat? hx) with ⟨q, hq⟩
  have hnonneg := Double.seen?_nonneg hx hq ha
  rcases applyFunction_squareRoot h hx hq ha with ⟨v, hv, hnear, hresult, c, hc⟩
  have hrounded := Double.isRounded_ofRat v
  have hsign := Double.signBit_ofRat hnear.sqrt_nonneg
  refine ⟨q, v, _, hq, hnonneg, hresult, hnear, hrounded, hsign, ?_, ?_, ?_⟩
  · rintro r b hr hb rfl
    exact (Double.unsignedZero_of_signBit hsign).symm.trans
      (hrounded.unique (hnear.isRounded_of_square hr hb))
  · intro y b hy hle
    rcases Double.seen?_of_isFinite (Double.isFinite_of_toRat? hy) with ⟨q', hq'⟩
    rcases applyFunction_squareRoot h hy hq' (ha.trans hle) with
      ⟨v', hv', hnear', hresult', c', hc'⟩
    refine ⟨_, c, c', hresult', hc, hc', hrounded.mono (Double.isRounded_ofRat v') ?_ hc hc'⟩
    -- What the numbers are shown as is the same, or it is apart.
    rcases (Double.seen?_mono hx hy hq hq' hle).eq_or_lt with rfl | hlt
    · rw [hv] at hv'
      cases hv'
      exact le_rfl
    · rcases hnonneg.eq_or_lt with rfl | hpos
      · have hzero : v = 0 := by simpa using hnear.error_le
        rw [hzero]
        exact hnear'.sqrt_nonneg
      · exact hnear.le_of_apart hpos.le hnear' (Double.seen?_apart hq hq' hpos hlt)
  · rw [Double.isZero_iff hc]
    constructor
    · intro hzero
      by_contra hne
      have hseen := Double.half_least_le_seen hx hq (lt_of_le_of_ne ha (Ne.symm hne))
      exact (hrounded.pos_of_least_le hc (hnear.least_le hseen)).ne' hzero
    · rintro rfl
      have hzero : q ≤ 0 :=
        Double.seen?_mono hx Double.toRat?_zero hq (Double.seen?_zero _ _ _) le_rfl
      obtain rfl : q = 0 := le_antisymm hzero hnonneg
      obtain rfl : v = 0 := by simpa using hnear.error_le
      have hvalue := Double.toRat?_ofRat Double.toRat?_zero
      rw [hvalue] at hc
      cases hc
      rfl

/-- The root of 2.25 is 1.5. -/
theorem squareRoot_accurate_square :
    applyFunction "sqrt" (Double.ofRat (9 / 4)) = .ok (Double.ofRat (3 / 2)) := by
  have hx : (Double.ofRat (9 / 4)).toRat? = some (9 / 4) := by decide +kernel
  have hr : (Double.ofRat (3 / 2)).toRat? = some (3 / 2) := by decide +kernel
  have hseen : (Double.ofRat (9 / 4)).seen? = some (9 / 4) := by decide +kernel
  rcases squareRoot_accurate Numerics.reference_squareRoot hx (by norm_num) with
    ⟨q, v, result, hq, -, hresult, -, -, -, hsquare, -, -⟩
  have hradicand : q = 3 / 2 * (3 / 2) := by
    rw [hseen] at hq
    cases hq
    norm_num
  rw [hresult, hsquare _ _ hr (by norm_num) hradicand]
  decide +kernel

/-- The root of 1997 is not what rounding the real root to 60 bits and then to a double comes
    to. It is cut off before, and that decides on which side of a tie it is. -/
theorem squareRoot_cutOff : (Double.ofRat 1997).seen? = some 1997 ∧
    ¬ ∃ v result, Rounding.IsRoundedTo 60 √((1997 : Rat) : ℝ) v ∧ Double.IsRounded v result ∧
      applyFunction "sqrt" (Double.ofRat 1997) = .ok result := by
  refine ⟨by decide +kernel, ?_⟩
  rintro ⟨v, result, hrounded, hresult, happly⟩
  have hroot := Elementary.isRoundedTo_rootToBits (by decide : 2 ≤ 60)
    (by norm_num : (0 : Rat) ≤ 1997)
  -- Rounding leaves no choice, so it is enough to look at one value.
  obtain rfl := hrounded.unique (by norm_num) hroot
  have hsame := hresult.unique (Double.isRounded_ofRat _)
  have hcomputed : applyFunction "sqrt" (Double.ofRat 1997) =
      .ok (Double.ofRat (Elementary.root 60 1997)) := by decide +kernel
  rw [hcomputed] at happly
  cases happly
  revert hsame
  decide +kernel

end Reckoner
