import Mathlib
import Reckoner.Proofs.Number.Reading
import Reckoner.Proofs.Scan.Calculation

/-!
# Numbers in Steps

Steps show numbers compactly, and nothing of a number is lost by that. What is shown is
read back as the number, apart from the sign of a zero. There are three forms: integers
below `10 ^ 16`, numerals with a point, and numerals in scientific notation, and which of
them it is depends on the value and on nothing else.

The form is chosen by looking at the shortest decimal, and not at the number. The decimal
is rounded to the number, and rounding keeps the order, so the two are on the same side of
a power of ten. They could only be on different sides if the number were next to the power,
and the double next to it is shown as the power itself (`Landmark`).

A decimal that is an integer is rounded to an integer, because small integers have doubles
of their own and the doubles beyond these are all integers. So the point of a number that is
not integral stands among its digits or before them, and the last one is no zero.

## Main definitions

* `Double.Landmark`: A power of ten that the nearest double is shown as.
* `Double.Integral`: The values that are shown as integers.

## Theorems

* `Decimal.trim_mod`: The last digit of a decimal that is shown is not zero.
* `exists_integer_of_isRounded`: An integer is rounded to an integer.
* `pow_le_magnitude_iff`: A number is beyond a power of ten if its decimal is.
* `denotes_compact`: What is shown denotes the number.
* `compact_lossless`: It is read back, and its form depends on the value.
-/

namespace Reckoner

namespace Decimal

variable {d : Decimal}

theorem digits_ne_nil (d : Decimal) : d.digits ≠ [] := Nat.toDigits_ne_nil

/-- How large a decimal is can be told from where its first digit stands. -/
theorem pow_le_toRat_iff (hpos : 0 < d.coefficient) (t : Int) :
    (10 : Rat) ^ t ≤ d.toRat ↔ t ≤ d.digits.length + d.exponent - 1 := by
  have hten : (10 : Rat) ≠ 0 := by norm_num
  have hlength : 0 < d.digits.length := Nat.length_toDigits_pos
  have hlow : (10 : Rat) ^ (d.digits.length - 1) ≤ d.coefficient := by
    exact_mod_cast pow_digits_le hpos
  have hhigh : (d.coefficient : Rat) < (10 : Rat) ^ d.digits.length := by
    exact_mod_cast (Nat.length_toDigits_le_iff (by decide) hlength).1 le_rfl
  have hunit : (0 : Rat) < (10 : Rat) ^ d.exponent := by positivity
  constructor
  · intro h
    have hlt : (10 : Rat) ^ t < (10 : Rat) ^ (d.digits.length + d.exponent) := by
      refine h.trans_lt ?_
      rw [zpow_add₀ hten, zpow_natCast]
      exact mul_lt_mul_of_pos_right hhigh hunit
    rw [zpow_lt_zpow_iff_right₀ (by norm_num)] at hlt
    omega
  · intro h
    calc (10 : Rat) ^ t ≤ (10 : Rat) ^ (((d.digits.length - 1 : Nat) : Int) + d.exponent) :=
          zpow_le_zpow_right₀ (by norm_num) (by omega)
      _ = (10 : Rat) ^ (d.digits.length - 1) * (10 : Rat) ^ d.exponent := by
          rw [zpow_add₀ hten, zpow_natCast]
      _ ≤ d.toRat := mul_le_mul_of_nonneg_right hlow hunit.le

/-- With fuel for all digits but one, zeros are dropped until there are none. -/
theorem trimFrom_mod {fuel : Nat} (hpos : 0 < d.coefficient)
    (hfuel : d.coefficient < 10 ^ (fuel + 1)) : (d.trimFrom fuel).coefficient % 10 ≠ 0 := by
  -- The fuel bounds the digits that are left, and without any there is a single one.
  induction fuel generalizing d with
  | zero =>
      simp only [trimFrom]
      omega
  | succ fuel ih =>
      simp only [trimFrom]
      split
      · rename_i hzero
        have hcut : (d.truncate 1).coefficient = d.coefficient / 10 := rfl
        refine ih ?_ ?_
        · omega
        · rw [hcut, Nat.div_lt_iff_lt_mul (by decide), ← pow_succ]
          exact hfuel
      · assumption

theorem trim_mod (hpos : 0 < d.coefficient) : d.trim.coefficient % 10 ≠ 0 := by
  have hlength : 0 < d.digits.length := Nat.length_toDigits_pos
  refine trimFrom_mod hpos ?_
  rw [Nat.sub_add_cancel hlength]
  exact (Nat.length_toDigits_le_iff (by decide) hlength).1 le_rfl

/-- The last digit of a number that is not divisible by ten is not a zero. -/
theorem getLast?_digits (h : d.coefficient % 10 ≠ 0) : d.digits.getLast? ≠ some '0' := by
  have hdigit : ∀ k < 10, k ≠ 0 → some (Nat.digitChar k) ≠ some '0' := by decide
  have hlast : d.digits.getLast? = some (Nat.digitChar (d.coefficient % 10)) := by
    by_cases hsmall : d.coefficient < 10
    · rw [digits, Nat.toDigits_of_lt_base hsmall, Nat.mod_eq_of_lt hsmall]
      rfl
    · rw [digits, Nat.toDigits_of_base_le (by decide) (Nat.not_lt.1 hsmall), List.getLast?_concat]
  rw [hlast]
  exact hdigit _ (Nat.mod_lt _ (by decide)) h

end Decimal

namespace Double

section Integers

variable {x : Double} {a : Rat}

/-- Significands with fewer bits and larger exponents have doubles too. -/
theorem exists_canonical {k : Nat} {e : Int} (hk : k < Nat.pow 2 53) (hlow : -1074 ≤ e)
    (hhigh : e ≤ 971) : ∃ m f, Canonical m f ∧ magnitude m f = magnitude k e := by
  rcases Int.eq_ofNat_of_zero_le (by omega : 0 ≤ e + 1074) with ⟨j, hj⟩
  obtain rfl : e = (j : Int) - 1074 := by omega
  have hpow : Nat.pow 2 53 = 9007199254740992 ∧ Nat.pow 2 52 = 4503599627370496 := ⟨rfl, rfl⟩
  induction j generalizing k with
  | zero => exact ⟨k, _, ⟨hk, by omega, by omega, .inr (by omega)⟩, rfl⟩
  | succ j ih =>
      by_cases hfull : Nat.pow 2 52 ≤ k
      · exact ⟨k, _, ⟨hk, by omega, by omega, .inl hfull⟩, rfl⟩
      · rcases ih (k := 2 * k) (by omega) (by omega) (by omega) (by omega) with ⟨m, f, hc, hvalue⟩
        refine ⟨m, f, hc, hvalue.trans ?_⟩
        have hnext : ((j + 1 : Nat) : Int) - 1074 = ((j : Int) - 1074) + 1 := by omega
        rw [hnext, magnitude, magnitude, zpow_add_one₀ two_ne_zero]
        push_cast
        ring

/-- An integer is rounded to an integer. -/
theorem exists_integer_of_isRounded {n : Nat} (h : IsRounded (n : Rat) x)
    (ha : x.toRat? = some a) : ∃ k : Int, a = k := by
  by_cases hsmall : n < Nat.pow 2 53
  · -- A small integer is the value of a double, and no other is as near.
    rcases exists_canonical hsmall (e := 0) (by omega) (by omega) with ⟨m, f, hc, hvalue⟩
    have hsame : (finite false m f hc).toRat? = some (n : Rat) := by
      rw [toRat?, hvalue]
      simp [signed, magnitude]
    have hnear := h.le_of_toRat? ha hsame
    rw [sub_self, abs_zero] at hnear
    exact ⟨n, by exact_mod_cast sub_eq_zero.1 (abs_nonpos_iff.1 hnear)⟩
  · -- A large one is rounded to a double whose unit is at least one.
    have hbound : (finite false (Nat.pow 2 52) 1 (by decide)).toRat? = some ((2 : Rat) ^ 53) := by
      simp only [toRat?, signed, magnitude, Bool.false_eq_true, if_false, Option.some.injEq]
      norm_num
    have hlarge : (2 : Rat) ^ 53 ≤ n := by exact_mod_cast not_lt.1 hsmall
    have hle := (isRounded_self hbound).mono h hlarge hbound ha
    rcases toRat?_eq_some ha with ⟨s, m, e, hc, rfl, rfl⟩
    have hsize := hle.trans (le_abs_self _)
    rw [abs_signed, abs_of_nonneg (magnitude_nonneg m e)] at hsize
    have hexponent : 0 ≤ e := by
      by_contra hneg
      have hunit : (2 : Rat) ^ e ≤ 1 := zpow_le_one_of_nonpos₀ (by norm_num) (by omega)
      have hsignificand : (m : Rat) < (2 : Rat) ^ 53 := by exact_mod_cast hc.1
      have hless : magnitude m e ≤ m := mul_le_of_le_one_right (by positivity) hunit
      linarith
    rcases Int.eq_ofNat_of_zero_le hexponent with ⟨j, rfl⟩
    cases s with
    | false => exact ⟨m * 2 ^ j, by simp [signed, magnitude]⟩
    | true => exact ⟨-(m * 2 ^ j), by simp [signed, magnitude]⟩

end Integers

section Landmarks

variable {s : Bool} {m : Nat} {e : Int} {h : Canonical m e} {d : Decimal}

/-- The decimal that a number other than zero is shown as. -/
theorem decimal?_spec (hm : 0 < m) (hd : (finite s m e h).decimal? = some d) :
    0 < d.coefficient ∧ d.coefficient % 10 ≠ 0 := by
  cases hd
  have hnear := @Decimal.shortest_near (fun d => ofDecimal false d = (finite s m e h).abs) _
    (Decimal.coefficient_ofBinary e hm)
  exact ⟨(Decimal.trim_near hnear).positive, Decimal.trim_mod hnear.positive⟩

theorem isRounded_decimal (hd : (finite s m e h).decimal? = some d) :
    IsRounded d.toRat (finite false m e h) := by
  have hrounded := isRounded_ofMagnitude false d.toRat_nonneg
  rw [← ofDecimal, ofDecimal_of_decimal? hd] at hrounded
  exact hrounded

/-- The double next to a power of ten is not below it, and it is shown as the power. -/
structure Landmark (t : Int) : Prop where
  shown : (ofDecimal false ⟨1, t⟩).decimal? = some ⟨1, t⟩
  le : ∀ b ∈ (ofDecimal false ⟨1, t⟩).toRat?, (10 : Rat) ^ t ≤ b

theorem landmark_large : Landmark 16 := ⟨by decide +kernel, by decide +kernel⟩

theorem landmark_small : Landmark (-4) := ⟨by decide +kernel, by decide +kernel⟩

/-- A number is not smaller than such a power of ten if its decimal is not. -/
theorem pow_le_magnitude_iff {t : Int} (ht : Landmark t) (hm : 0 < m)
    (hd : (finite s m e h).decimal? = some d) :
    (10 : Rat) ^ t ≤ magnitude m e ↔ t ≤ d.digits.length + d.exponent - 1 := by
  rw [← Decimal.pow_le_toRat_iff (decimal?_spec hm hd).1]
  have hrounded := isRounded_decimal hd
  have hpower : (⟨1, t⟩ : Decimal).toRat = (10 : Rat) ^ t := by simp [Decimal.toRat]
  have hlandmark : IsRounded ((10 : Rat) ^ t) (ofDecimal false ⟨1, t⟩) := by
    have := isRounded_ofMagnitude false (Decimal.toRat_nonneg ⟨1, t⟩)
    rw [hpower] at this
    rw [ofDecimal, hpower]
    exact this
  have hshown := ht.shown
  cases hb : (ofDecimal false ⟨1, t⟩).toRat? with
  | none =>
      cases hy : ofDecimal false ⟨1, t⟩ <;> rw [hy] at hb hshown <;> cases hb <;> cases hshown
  | some b =>
      have hle := ht.le b hb
      constructor
      · intro hlarge
        by_contra hbelow
        have hmono := hrounded.mono hlandmark (not_le.1 hbelow).le rfl hb
        have hnear := hlandmark.le_of_toRat? hb (y := finite false m e h) rfl
        simp only [signed, Bool.false_eq_true, if_false] at hmono hnear
        rw [abs_of_nonneg (by linarith), abs_of_nonneg (by linarith)] at hnear
        -- The number is the double next to the power, so it is shown as the power.
        rcases toRat?_eq_some hb with ⟨t', n, f, hc, hfinite, hvalue⟩
        have habs := congrArg (|·|) hvalue
        simp only [abs_signed, abs_of_nonneg (magnitude_nonneg _ _)] at habs
        rw [abs_of_nonneg (by linarith [magnitude_nonneg m e])] at habs
        rcases eq_of_magnitude_eq h hc (by linarith) with ⟨rfl, rfl⟩
        have hsame : (finite s m e h).decimal? = some ⟨1, t⟩ := by
          rw [← hshown, hfinite]
          rfl
        rw [hd] at hsame
        cases hsame
        exact hbelow hpower.ge
      · intro hlarge
        exact hle.trans (hlandmark.mono hrounded hlarge hb rfl)

end Landmarks

/-- The values that are shown as integers. -/
def Integral (a : Rat) : Prop := (∃ n : Int, a = n) ∧ |a| < (10 : Rat) ^ 16

section Shown

open Lexical Numeral

variable {x : Double} {a : Rat} {n : Int}

theorem integral_intCast : Integral (n : Rat) ↔ n.natAbs < Nat.pow 10 16 := by
  have habs : ((n.natAbs : Nat) : Rat) = |(n : Rat)| := by rw [Nat.cast_natAbs, Int.cast_abs]
  rw [Integral, ← habs]
  constructor
  · rintro ⟨-, hsmall⟩
    exact_mod_cast hsmall
  · exact fun hsmall => ⟨⟨n, rfl⟩, by exact_mod_cast hsmall⟩

/-- An integer is shown as one, zeros included. -/
theorem compact_of_integral (hx : x.toRat? = some (n : Rat)) (hn : Integral n) :
    x.compact.toList = ofInt n := by
  rw [compact]
  by_cases hzero : x.isZero = true
  · have hn : n = 0 := by exact_mod_cast (isZero_iff hx).1 hzero
    rw [if_pos hzero, hn]
    rfl
  · rw [if_neg hzero, (integer?_eq_some_iff hx).2 rfl]
    simp only [integral_intCast.1 hn, if_true, String.toList_ofList]

theorem ne_zero_of_not_integral (ha : ¬ Integral a) : a ≠ 0 := by
  rintro rfl
  exact ha ⟨⟨0, by simp⟩, by norm_num⟩

/-- Other numbers are shown as text. -/
theorem compact_of_not_integral (hx : x.toRat? = some a) (ha : ¬ Integral a) :
    x.compact = x.text := by
  have hzero : ¬ x.isZero = true := by
    rw [isZero_iff hx]
    exact ne_zero_of_not_integral ha
  rw [compact, if_neg hzero]
  cases hn : x.integer? with
  | none => rfl
  | some n =>
      have hvalue := (integer?_eq_some_iff hx).1 hn
      rw [hvalue, integral_intCast] at ha
      exact if_neg ha

theorem signBit_unsignedZero (x : Double) : x.unsignedZero.signBit = x.isNegative := by
  cases x with
  | finite s m e hc =>
      by_cases hm : m = 0
      · simp [unsignedZero, isZero, hm, isNegative, zero, signBit]
      · simp [unsignedZero, isZero, hm, isNegative, signBit]
  | infinite s => rfl
  | nan => rfl

theorem denotes_ofInt (n : Int) : Denotes (ofInt n) (ofDecimal (decide (n < 0)) ⟨n.natAbs, 0⟩) := by
  have hdenotes := Denotes.mk (decide (n < 0)) (isWhole_ofNat n.natAbs) .absent .absent
  simp only [ofNat, List.append_nil, List.length_nil, Nat.cast_zero, sub_zero,
    Nat.ofDigitChars_ten_toDigits] at hdenotes
  rw [ofInt_eq]
  exact hdenotes

/-- What a number is shown as denotes it, without the sign of a zero. -/
theorem denotes_compact (hx : x.toRat? = some a) : Denotes x.compact.toList x.unsignedZero := by
  by_cases ha : Integral a
  · rcases ha.1 with ⟨n, rfl⟩
    have hvalue : signed (decide (n < 0)) (⟨n.natAbs, 0⟩ : Decimal).toRat = n := by
      have habs : ((n.natAbs : Nat) : Rat) = |(n : Rat)| := by rw [Nat.cast_natAbs, Int.cast_abs]
      simp only [Decimal.toRat, zpow_zero, mul_one, habs, signed, decide_eq_true_eq]
      split
      · rename_i hneg
        rw [abs_of_neg (by exact_mod_cast hneg), Rat.neg_neg]
      · rename_i hneg
        exact abs_of_nonneg (by exact_mod_cast not_lt.1 hneg)
    have hrounded := isRounded_ofMagnitude (decide (n < 0)) (⟨n.natAbs, 0⟩ : Decimal).toRat_nonneg
    rw [hvalue, ← ofDecimal] at hrounded
    -- The number is its own value rounded, and there is only one such double.
    have hsame : ofDecimal (decide (n < 0)) ⟨n.natAbs, 0⟩ = x.unsignedZero := by
      have hself := isRounded_self ((toRat?_unsignedZero x).trans hx)
      refine eq_of_unsignedZero (hrounded.unique hself) ?_
      rw [ofDecimal, signBit_ofMagnitude, signBit_unsignedZero, Bool.eq_iff_iff, isNegative_iff hx,
        decide_eq_true_eq, Int.cast_lt_zero]
    rw [compact_of_integral hx ha, ← hsame]
    exact denotes_ofInt n
  · have hzero : x.isZero = false := by
      rw [← Bool.not_eq_true, isZero_iff hx]
      exact ne_zero_of_not_integral ha
    rw [compact_of_not_integral hx ha, unsignedZero, hzero, if_neg (by decide)]
    exact denotes_text (isFinite_of_toRat? hx)

/-- What a number is shown as is read as the number, without the sign of a zero. -/
theorem readsAs_compact (hx : x.toRat? = some a) {y : Double} :
    ReadsAs x.compact.toList y ↔ y = x.unsignedZero := readsAs_iff (denotes_compact hx)

end Shown

section Forms

open Lexical Numeral

variable {x : Double} {a : Rat} {d : Decimal} {cs : List Char}

/-- How a number that is not shown as an integer is shown. The first digit of the decimal
    stands where that of the number does, its last one is no zero, and it has decimal places
    unless the number is large. -/
structure Written (a : Rat) (cs : List Char) (d : Decimal) : Prop where
  positive : 0 < d.coefficient
  trimmed : d.coefficient % 10 ≠ 0
  leading : ∀ t, Landmark t → ((10 : Rat) ^ t ≤ |a| ↔ t ≤ d.digits.length + d.exponent - 1)
  places : |a| < (10 : Rat) ^ 16 → d.exponent < 0
  chars : ∃ negative, cs = minus negative ++ Numeral.ofDecimal d

/-- A decimal without decimal places is an integer, and so is the number. -/
theorem exponent_neg {s : Bool} {m : Nat} {e : Int} {h : Canonical m e}
    (hd : (finite s m e h).decimal? = some d)
    (ha : ¬ ∃ n : Int, signed s (magnitude m e) = n) : d.exponent < 0 := by
  by_contra hnonneg
  rcases Int.eq_ofNat_of_zero_le (not_lt.1 hnonneg) with ⟨j, hj⟩
  have hvalue : d.toRat = ((d.coefficient * 10 ^ j : Nat) : Rat) := by
    rw [Decimal.toRat, hj]
    push_cast
    rfl
  have hrounded := isRounded_decimal hd
  rw [hvalue] at hrounded
  rcases exists_integer_of_isRounded hrounded rfl with ⟨k, hk⟩
  simp only [signed, Bool.false_eq_true, if_false] at hk
  rw [hk] at ha
  cases s with
  | false => exact ha ⟨k, rfl⟩
  | true => exact ha ⟨-k, by simp [signed]⟩

theorem exists_written (hx : x.toRat? = some a) (ha : ¬ Integral a) :
    ∃ d, Written a x.compact.toList d := by
  have hne := ne_zero_of_not_integral ha
  have hcompact := compact_of_not_integral hx ha
  rcases toRat?_eq_some hx with ⟨s, m, e, hc, rfl, rfl⟩
  have hm : 0 < m := by
    refine Nat.pos_of_ne_zero ?_
    rintro rfl
    exact hne (by simp [magnitude, signed_zero])
  cases hd : (finite s m e hc).decimal? with
  | none => cases hd
  | some d =>
      rcases decimal?_spec hm hd with ⟨hpos, htrim⟩
      refine ⟨d, hpos, htrim, fun t ht => ?_, fun hsmall => ?_, s, ?_⟩
      · rw [abs_signed, abs_of_nonneg (magnitude_nonneg m e)]
        exact pow_le_magnitude_iff ht hm hd
      · exact exponent_neg hd fun hint => ha ⟨hint, hsmall⟩
      · rw [hcompact]
        exact text_toList hd

/-- Numbers of moderate size are shown with a point. -/
theorem Written.exists_positional (h : Written a cs d) (hlow : (10 : Rat) ^ (-4 : Int) ≤ |a|)
    (hhigh : ¬ (10 : Rat) ^ (16 : Int) ≤ |a|) :
    ∃ negative, cs = minus negative ++ positional d.digits (d.digits.length + d.exponent) := by
  rw [h.leading _ landmark_small] at hlow
  rw [h.leading _ landmark_large] at hhigh
  rcases h.chars with ⟨negative, hcs⟩
  have hpoint : (d.digits.length : Int) + d.exponent - 1 + 1 = d.digits.length + d.exponent := by
    omega
  simp only [Numeral.ofDecimal, if_neg h.positive.ne', hpoint] at hcs
  rw [if_pos (by omega)] at hcs
  exact ⟨negative, hcs⟩

/-- Others are shown in scientific notation. -/
theorem Written.exists_scientific (h : Written a cs d)
    (hfar : (10 : Rat) ^ (16 : Int) ≤ |a| ∨ ¬ (10 : Rat) ^ (-4 : Int) ≤ |a|) :
    ∃ negative leading, cs = minus negative ++ Numeral.scientific d.digits leading := by
  rw [h.leading _ landmark_small, h.leading _ landmark_large] at hfar
  rcases h.chars with ⟨negative, hcs⟩
  simp only [Numeral.ofDecimal, if_neg h.positive.ne'] at hcs
  rw [if_neg (by omega)] at hcs
  exact ⟨negative, _, hcs⟩

/-- There is no other form, and what is shown with a point has decimal places. -/
theorem Written.form (h : Written a cs d) :
    (∃ negative leading, cs = minus negative ++ Numeral.scientific d.digits leading) ∨
      d.exponent < 0 ∧
        ∃ negative, cs = minus negative ++ positional d.digits (d.digits.length + d.exponent) := by
  by_cases hfar : (10 : Rat) ^ (16 : Int) ≤ |a| ∨ ¬ (10 : Rat) ^ (-4 : Int) ≤ |a|
  · exact .inl (h.exists_scientific hfar)
  · simp only [not_or, not_not] at hfar
    exact .inr ⟨h.places (by exact_mod_cast not_le.1 hfar.1), h.exists_positional hfar.2 hfar.1⟩

section Ends

variable {ds : List Char} {point : Int}

/-- An exponent has two digits at least, so no point is next to its last one. -/
theorem scientific_ends (before ds : List Char) (leading : Int) :
    ¬ ['.', '0'] <:+ before ++ Numeral.scientific ds leading := by
  have hends : padded 2 leading.natAbs <:+ before ++ Numeral.scientific ds leading :=
    (((List.suffix_cons _ _).trans (List.suffix_cons _ _)).trans (List.suffix_append _ _)).trans
      (List.suffix_append before _)
  have hlength : 2 ≤ (padded 2 leading.natAbs).length := by
    rw [padded, List.length_append, List.length_replicate]
    omega
  intro h
  have hexponent := List.suffix_of_suffix_length_le h hends hlength
  cases isDigit_padded 2 leading.natAbs '.' (hexponent.mem (by simp))

/-- What comes last in a list is what comes last in the end of it. -/
theorem getLast?_append_of_ne_nil (before : List Char) {after : List Char} (h : after ≠ []) :
    (before ++ after).getLast? = after.getLast? := by
  rw [List.getLast?_append, Option.or_of_isSome (by simpa using h)]

/-- A numeral whose point is among its digits or before them ends as they do. -/
theorem getLast?_positional (hne : ds ≠ []) (hpoint : point < ds.length) :
    (Numeral.positional ds point).getLast? = ds.getLast? := by
  rw [Numeral.positional]
  -- All digits come after the point, or it cuts them in two.
  split
  · have hzeros : '0' :: '.' :: (List.replicate (-point).toNat '0' ++ ds) =
        ('0' :: '.' :: List.replicate (-point).toNat '0') ++ ds := rfl
    rw [hzeros, getLast?_append_of_ne_nil _ hne]
  · have hdrop : ds.drop point.toNat ≠ [] := by
      rw [Ne, List.drop_eq_nil_iff]
      omega
    have hsplit : ds.take point.toNat ++ '.' :: ds.drop point.toNat =
        (ds.take point.toNat ++ ['.']) ++ ds.drop point.toNat := by simp
    rw [if_neg (by omega), hsplit, getLast?_append_of_ne_nil _ hdrop,
      ← getLast?_append_of_ne_nil (ds.take point.toNat) hdrop, List.take_append_drop]

end Ends

/-- A number that is not shown as an integer is shown with a point or with an exponent, and
    not with a zero after the point that says nothing. -/
theorem Written.ends (h : Written a cs d) : ¬ ['.', '0'] <:+ cs := by
  rcases h.form with ⟨negative, leading, rfl⟩ | ⟨hexponent, negative, rfl⟩
  · exact scientific_ends _ _ _
  · have hlast := Decimal.getLast?_digits h.trimmed
    rintro ⟨before, hbefore⟩
    have hne : positional d.digits (d.digits.length + d.exponent) ≠ [] :=
      List.ne_nil_of_mem (mem_positional _ _)
    have hend := congrArg List.getLast? hbefore
    rw [getLast?_append_of_ne_nil _ hne, getLast?_append_of_ne_nil _ (by simp),
      getLast?_positional d.digits_ne_nil (by omega)] at hend
    exact hlast hend.symm

/-- It is no integer. -/
theorem Written.not_isInteger (h : Written a cs d) : ¬ IsInteger cs := by
  intro hinteger
  have hchars := mem_of_isInteger hinteger
  rcases h.form with ⟨negative, leading, rfl⟩ | ⟨-, negative, rfl⟩
  · rcases hchars 'e' (List.mem_append_right _ (mem_scientific _ _)) with he | he <;> cases he
  · rcases hchars '.' (List.mem_append_right _ (mem_positional _ _)) with he | he <;> cases he

/-- It is in scientific notation if it is large or small. -/
theorem Written.isScientific_iff {y : Double} (h : Written a cs d) (hdenotes : Denotes cs y) :
    IsScientific cs ↔ (10 : Rat) ^ (16 : Int) ≤ |a| ∨ ¬ (10 : Rat) ^ (-4 : Int) ≤ |a| := by
  constructor
  · intro hscientific
    -- The mark of the exponent has no place in a numeral with a point.
    rcases mem_of_isScientific hscientific with ⟨c, hc, hsign, hnumeric⟩
    by_contra hnear
    simp only [not_or, not_not] at hnear
    rcases h.exists_positional hnear.2 hnear.1 with ⟨negative, rfl⟩
    rcases List.mem_append.1 hc with hc | hc
    · cases negative <;> simp [minus, hsign] at hc
    · rw [isNumeric_of_plain (plain_positional d) c hc] at hnumeric
      cases hnumeric
  · intro hfar
    rcases h.exists_scientific hfar with ⟨negative, leading, rfl⟩
    exact isScientific_of_mem hdenotes (List.mem_append_right _ (mem_scientific _ _))

end Forms

section Lossless

open Lexical Numeral

variable {x : Double} {a : Rat}

theorem compact_ends (hx : x.toRat? = some a) : ¬ ['.', '0'] <:+ x.compact.toList := by
  by_cases ha : Integral a
  · rcases ha.1 with ⟨n, rfl⟩
    rw [compact_of_integral hx ha, ofInt_eq]
    intro hsuffix
    have hinteger : IsInteger (minus (decide (n < 0)) ++ ofNat n.natAbs) :=
      ⟨_, _, isWhole_ofNat _, rfl⟩
    rcases mem_of_isInteger hinteger '.' (hsuffix.mem (by simp)) with he | he <;> cases he
  · rcases exists_written hx ha with ⟨d, hd⟩
    exact hd.ends

theorem isInteger_compact_iff (hx : x.toRat? = some a) :
    IsInteger x.compact.toList ↔ Integral a := by
  by_cases ha : Integral a
  · rcases ha.1 with ⟨n, rfl⟩
    rw [compact_of_integral hx ha, ofInt_eq]
    exact ⟨fun _ => ha, fun _ => ⟨_, _, isWhole_ofNat _, rfl⟩⟩
  · rcases exists_written hx ha with ⟨d, hd⟩
    exact ⟨fun h => absurd h hd.not_isInteger, fun h => absurd h ha⟩

theorem isScientific_compact_iff (hx : x.toRat? = some a) :
    IsScientific x.compact.toList ↔
      (10 : Rat) ^ 16 ≤ |a| ∨ 0 < |a| ∧ |a| < ((10 : Rat) ^ 4)⁻¹ := by
  by_cases ha : Integral a
  · have hinteger := (isInteger_compact_iff hx).2 ha
    have hnot : ¬ IsScientific x.compact.toList := by
      intro hscientific
      rcases mem_of_isScientific hscientific with ⟨c, hc, hsign, hnumeric⟩
      rcases mem_of_isInteger hinteger c hc with hc | hc
      · exact hsign hc
      · rw [isNumeric, hc, Bool.true_or] at hnumeric
        cases hnumeric
    refine iff_of_false hnot ?_
    rcases ha with ⟨⟨n, rfl⟩, hsmall⟩
    rintro (hlarge | ⟨hpos, hless⟩)
    · exact absurd hsmall (not_lt.2 hlarge)
    · -- No integer is between zero and one.
      have hone : (1 : Rat) ≤ |(n : Rat)| := by
        exact_mod_cast Int.one_le_abs (by simpa using hpos)
      norm_num at hless
      linarith
  · rcases exists_written hx ha with ⟨d, hd⟩
    have hpos := abs_pos.2 (ne_zero_of_not_integral ha)
    rw [hd.isScientific_iff (denotes_compact hx), not_le, zpow_neg]
    simp only [hpos, true_and]
    exact Iff.rfl

/-- No number is shown as a zero with a minus before it. -/
theorem compact_ne_negativeZero (hx : x.toRat? = some a) : x.compact ≠ "-0" := by
  intro heq
  have hdenotes := Denotes.mk true (isWhole_ofNat 0) .absent .absent
  have hzero : ofDecimal true ⟨Nat.ofDigitChars 10 (ofNat 0 ++ []) 0,
      0 - (([] : List Char).length : Int)⟩ = negativeZero := by decide +kernel
  rw [hzero] at hdenotes
  have hread : negativeZero = x.unsignedZero := by
    refine (readsAs_compact hx).1 ?_
    rw [heq]
    exact readsAs_of_denotes hdenotes
  exact (clean_unsignedZero (isFinite_of_toRat? hx)).2 hread.symm

/-- Nothing of a number is lost where steps show it, up to the sign of a zero. What is shown
    is read as the number, different numbers are shown differently, and the form is that of
    an integer or has an exponent where the value says so. -/
theorem compact_lossless {x : Double} {a : Rat} (hx : x.toRat? = some a) :
    (∀ y, ReadsAs x.compact.toList y ↔ y = x.unsignedZero) ∧
    (∀ (y : Double) (b : Rat), y.toRat? = some b → b ≠ a → y.compact ≠ x.compact) ∧
    ¬ ['.', '0'] <:+ x.compact.toList ∧ x.compact ≠ "-0" ∧
    (IsInteger x.compact.toList ↔ (∃ n : Int, a = n) ∧ |a| < (10 : Rat) ^ 16) ∧
    (IsScientific x.compact.toList ↔
      (10 : Rat) ^ 16 ≤ |a| ∨ 0 < |a| ∧ |a| < ((10 : Rat) ^ 4)⁻¹) := by
  refine ⟨fun y => readsAs_compact hx, fun y b hy hne heq => hne ?_, compact_ends hx,
    compact_ne_negativeZero hx, isInteger_compact_iff hx, isScientific_compact_iff hx⟩
  -- Both numbers are read from the one text.
  have hread := (readsAs_compact hy).2 rfl
  rw [heq, readsAs_compact hx] at hread
  have hvalue := congrArg toRat? hread
  rw [toRat?_unsignedZero, toRat?_unsignedZero, hx, hy] at hvalue
  exact Option.some.inj hvalue

/-- The first integer that is not shown as one, with a minus. -/
theorem compact_lossless_large :
    (ofRat (-10 ^ 16)).compact = "-1e+16" ∧ IsScientific "-1e+16".toList ∧
      ∀ y, ReadsAs "-1e+16".toList y ↔ y = ofRat (-10 ^ 16) := by
  have hx : (ofRat (-10 ^ 16)).toRat? = some (-10 ^ 16) := by decide +kernel
  have hshown : (ofRat (-10 ^ 16)).compact = "-1e+16" := by decide +kernel
  have hsame : (ofRat (-10 ^ 16)).unsignedZero = ofRat (-10 ^ 16) := by decide +kernel
  rcases compact_lossless hx with ⟨hread, -, -, -, -, hscientific⟩
  rw [hshown] at hread hscientific
  rw [hsame] at hread
  exact ⟨hshown, hscientific.2 (.inl (by norm_num)), hread⟩

end Lossless

end Double

end Reckoner
