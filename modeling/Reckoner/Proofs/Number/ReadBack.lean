import Mathlib
import Reckoner.Number.Numeral
import Reckoner.Proofs.Number.Clean
import Reckoner.Proofs.Number.Decimal

/-!
# Numerals Read Back

A finite double is a value that rounding leaves where it is (`ofMagnitude_magnitude`),
so the exact decimal of a double reads back as it, and the search for the shortest
one never gives up more than that. What is shown in a step is this decimal with the
point put in its place, or an integer, and it names the double that it was made from.

Expressions have no exponents. A numeral without one is a whole part with a fraction or
on its own, and there is a minus before it if the number is negative (`ShownAs`).

## Main definitions

* `Double.Plain`: The plain numerals with the doubles that they denote.
* `Double.ShownAs`: What a number is shown as, if that is a plain numeral.

## Theorems

* `ofMagnitude_magnitude`: The value of a double is rounded to the double.
* `ofDecimal_of_decimal?`: The shortest decimal reads back.
* `plain_positional`: A decimal in positional form is a plain numeral of its value.
* `exists_shownAs`: A number is shown as a plain numeral or with an exponent.
-/

namespace Reckoner

namespace Decimal

/-- A zero at the end of the coefficient can be dropped. -/
theorem toRat_truncate_one {d : Decimal} (h : d.coefficient % 10 = 0) :
    (d.truncate 1).toRat = d.toRat := by
  have hcoefficient : d.coefficient = d.coefficient / 10 * 10 := by omega
  have hten : (10 : Rat) ≠ 0 := by norm_num
  simp only [truncate, toRat, Nat.pow_eq, pow_one, Nat.cast_one]
  rw [zpow_add_one₀ hten]
  conv_rhs => rw [hcoefficient]
  push_cast
  ring

theorem toRat_trimFrom (d : Decimal) (fuel : Nat) : (d.trimFrom fuel).toRat = d.toRat := by
  induction fuel generalizing d with
  | zero => rfl
  | succ fuel ih =>
      simp only [trimFrom]
      split
      · rename_i hzero
        rw [ih, toRat_truncate_one hzero]
      · rfl

theorem toRat_trim (d : Decimal) : d.trim.toRat = d.toRat := toRat_trimFrom d _

end Decimal

namespace Double

section Exact

variable {m : Nat} {e : Int}

/-- The unit in which the value of a double is counted is that of the double. -/
theorem quantum_magnitude (h : Canonical m e) :
    Rounding.quantum 53 (some (-1074)) (magnitude m e) = e := by
  rcases h with ⟨hsmall, hlow, hhigh, hnormal⟩
  have htwo : (2 : Rat) ≠ 0 := by norm_num
  have hunit : (0 : Rat) < (2 : Rat) ^ e := by positivity
  rcases Nat.eq_zero_or_pos m with rfl | hm
  · -- Of a zero there is only the one with the smallest exponent.
    have he : e = -1074 := hnormal.resolve_left (by decide)
    subst he
    simp [Rounding.quantum, magnitude]
  · have hq : 0 < magnitude m e := mul_pos (by exact_mod_cast hm) hunit
    have hupper : Rounding.binaryOrder (magnitude m e) < 53 + e := by
      refine Rounding.binaryOrder_lt hq ?_
      rw [zpow_add₀ htwo]
      exact mul_lt_mul_of_pos_right (by exact_mod_cast hsmall) hunit
    have hlower : Nat.pow 2 52 ≤ m → 52 + e ≤ Rounding.binaryOrder (magnitude m e) := by
      intro hfull
      refine Rounding.le_binaryOrder ?_
      rw [zpow_add₀ htwo]
      exact mul_le_mul_of_nonneg_right (by exact_mod_cast hfull) hunit.le
    rw [quantum_of_pos hq]
    rcases hnormal with hfull | rfl
    · have := hlower hfull
      omega
    · omega

/-- The value of a double is rounded to the double itself. -/
theorem ofMagnitude_magnitude (s : Bool) (h : Canonical m e) :
    ofMagnitude s (magnitude m e) = finite s m e h := by
  have hunit : (2 : Rat) ^ e ≠ 0 := by positivity
  have hsignificand : (Rounding.halfEven (magnitude m e / (2 : Rat) ^ e)).toNat = m := by
    have hcast : magnitude m e / (2 : Rat) ^ e = ((m : Int) : Rat) := by
      rw [magnitude, mul_div_cancel_right₀ _ hunit]
      rfl
    rw [hcast, Rounding.halfEven_intCast, Int.toNat_natCast]
  simp only [ofMagnitude, quantum_magnitude h, hsignificand, dif_pos h]

/-- The shortest decimal of a finite double reads back, with the sign put on again. -/
theorem ofDecimal_of_decimal? {s : Bool} {h : Canonical m e} {d : Decimal}
    (hd : (finite s m e h).decimal? = some d) : ofDecimal false d = finite false m e h := by
  cases hd
  have hexact : ofDecimal false (Decimal.ofBinary m e) = (finite s m e h).abs := by
    rw [ofDecimal, Decimal.toRat_ofBinary]
    exact ofMagnitude_magnitude false h
  have haccepted := @Decimal.shortest_accepted
    (fun d => ofDecimal false d = (finite s m e h).abs) (Decimal.ofBinary m e)
    (decide_eq_true hexact)
  rw [ofDecimal, Decimal.toRat_trim]
  exact of_decide_eq_true haccepted

end Exact

/-- The plain numerals, each with the double that it denotes. -/
inductive Plain : List Char → Double → Prop
  | integer {digits : List Char} (hne : digits ≠ [])
      (hdigits : ∀ c ∈ digits, c.isDigit = true) : Plain digits (ofParts digits [])
  | decimal {digits fraction : List Char} (hne : digits ≠ [])
      (hdigits : ∀ c ∈ digits, c.isDigit = true) (hfraction : fraction ≠ [])
      (hfdigits : ∀ c ∈ fraction, c.isDigit = true) :
      Plain (digits ++ '.' :: fraction) (ofParts digits fraction)

/-- A plain numeral whose digits make up the value of a decimal denotes what the
    decimal does. -/
theorem plain_of_value {whole fraction : List Char} {d : Decimal} (hne : whole ≠ [])
    (hwhole : ∀ c ∈ whole, c.isDigit = true) (hfraction : fraction ≠ [])
    (hfdigits : ∀ c ∈ fraction, c.isDigit = true)
    (hvalue : (Nat.ofDigitChars 10 (whole ++ fraction) 0 : Rat) *
      (10 : Rat) ^ (-(fraction.length : Int)) = d.toRat) :
    Plain (whole ++ '.' :: fraction) (ofDecimal false d) := by
  have hparts : ofParts whole fraction = ofDecimal false d := by
    simp only [ofParts, ofDecimal, Decimal.toRat] at hvalue ⊢
    rw [hvalue]
  rw [← hparts]
  exact .decimal hne hwhole hfraction hfdigits

theorem isDigit_digits (d : Decimal) : ∀ c ∈ d.digits, c.isDigit = true := fun _ hc =>
  Nat.isDigit_of_mem_toDigits (by decide) (by decide) hc

theorem isDigit_zeros (n : Nat) : ∀ c ∈ List.replicate n '0', c.isDigit = true := by
  intro c hc
  rw [List.eq_of_mem_replicate hc]
  decide

theorem ofDigitChars_digits (d : Decimal) : Nat.ofDigitChars 10 d.digits 0 = d.coefficient :=
  Nat.ofDigitChars_ten_toDigits

section Point

variable (d : Decimal) {n : Nat}

/-- All digits are after the point, with zeros before them. -/
theorem plain_after_point (hn : (d.digits.length : Int) + d.exponent = -n) :
    Plain ('0' :: '.' :: (List.replicate n '0' ++ d.digits)) (ofDecimal false d) := by
  have hne : d.digits ≠ [] := Nat.toDigits_ne_nil
  change Plain (['0'] ++ '.' :: _) _
  refine plain_of_value (by simp) (by simp) (by simp [hne]) ?_ ?_
  · intro c hc
    rcases List.mem_append.1 hc with hc | hc
    · exact isDigit_zeros _ c hc
    · exact isDigit_digits d c hc
  · have hplaces : -((List.replicate n '0' ++ d.digits).length : Int) = d.exponent := by
      rw [List.length_append, List.length_replicate]
      omega
    rw [hplaces, List.singleton_append, Nat.ofDigitChars_cons, Nat.ofDigitChars_append,
      Nat.ofDigitChars_replicate_zero]
    simp only [Nat.mul_zero, Nat.sub_self, Nat.add_zero, ofDigitChars_digits, Decimal.toRat]

/-- All digits are before the point, with zeros after them. -/
theorem plain_before_point (hn : d.exponent = n) :
    Plain (d.digits ++ List.replicate n '0' ++ ['.', '0']) (ofDecimal false d) := by
  have hne : d.digits ≠ [] := Nat.toDigits_ne_nil
  refine plain_of_value (by simp [hne]) ?_ (by simp) (by simp) ?_
  · intro c hc
    rcases List.mem_append.1 hc with hc | hc
    · exact isDigit_digits d c hc
    · exact isDigit_zeros _ c hc
  · rw [Nat.ofDigitChars_append, Nat.ofDigitChars_append, ofDigitChars_digits,
      Nat.ofDigitChars_replicate_zero, Nat.ofDigitChars_cons, Decimal.toRat, hn]
    simp only [Nat.ofDigitChars_nil, Nat.sub_self, Nat.add_zero, List.length_singleton,
      Nat.cast_one, zpow_neg_one, zpow_natCast]
    push_cast
    field_simp

/-- The point is among the digits. -/
theorem plain_around_point (hn : (d.digits.length : Int) + d.exponent = n) (hpos : 0 < n)
    (hlt : n < d.digits.length) :
    Plain (d.digits.take n ++ '.' :: d.digits.drop n) (ofDecimal false d) := by
  have hne : d.digits ≠ [] := Nat.toDigits_ne_nil
  refine plain_of_value ?_ (fun c hc => isDigit_digits d c (List.mem_of_mem_take hc)) ?_
    (fun c hc => isDigit_digits d c (List.mem_of_mem_drop hc)) ?_
  · rw [Ne, List.take_eq_nil_iff, not_or]
    exact ⟨by omega, hne⟩
  · rw [Ne, List.drop_eq_nil_iff]
    omega
  · rw [List.take_append_drop, ofDigitChars_digits, List.length_drop, Decimal.toRat]
    congr 2
    omega

/-- A decimal in positional form is a plain numeral of its value. -/
theorem plain_positional :
    Plain (Numeral.positional d.digits (d.digits.length + d.exponent)) (ofDecimal false d) := by
  simp only [Numeral.positional]
  split
  · exact plain_after_point d (by omega)
  · split
    · exact plain_before_point d (by omega)
    · exact plain_around_point d (by omega) (by omega) (by omega)

end Point

/-- An exponent is written with a letter. -/
theorem mem_scientific (ds : List Char) (exponent : Int) :
    'e' ∈ Numeral.scientific ds exponent := by
  simp [Numeral.scientific]

/-- A decimal that is written without an exponent is a plain numeral of its value. -/
theorem plain_ofDecimal {d : Decimal} (hpos : 0 < d.coefficient)
    (hplain : 'e' ∉ Numeral.ofDecimal d) : Plain (Numeral.ofDecimal d) (ofDecimal false d) := by
  simp only [Numeral.ofDecimal, if_neg hpos.ne'] at hplain ⊢
  split at hplain
  · rename_i hnear
    rw [if_pos hnear]
    have hpoint : (d.digits.length : Int) + d.exponent - 1 + 1 = d.digits.length + d.exponent := by
      omega
    rw [hpoint]
    exact plain_positional d
  · exact absurd (mem_scientific _ _) hplain

/-- An integer denotes the double that it was found to be equal to. -/
theorem plain_ofNat {m : Nat} {e : Int} (h : Canonical m e) {n : Nat}
    (hn : magnitude m e = n) : Plain (Numeral.ofNat n) (finite false m e h) := by
  have hparts : ofParts (Numeral.ofNat n) [] = finite false m e h := by
    simp only [ofParts, ofDecimal, Decimal.toRat, Numeral.ofNat, List.append_nil,
      Nat.ofDigitChars_ten_toDigits, List.length_nil, Nat.cast_zero, neg_zero, zpow_zero, mul_one,
      ← hn]
    exact ofMagnitude_magnitude false h
  rw [← hparts]
  exact .integer Nat.toDigits_ne_nil fun c hc =>
    Nat.isDigit_of_mem_toDigits (by decide) (by decide) hc

/-- The value of a double that equals an integer is that of the integer without its
    sign, and the signs agree. -/
theorem magnitude_of_integer? {s : Bool} {m : Nat} {e : Int} {h : Canonical m e} {n : Int}
    (hm : 0 < m) (hn : (finite s m e h).integer? = some n) :
    magnitude m e = n.natAbs ∧ (s = true ↔ n < 0) := by
  have hpos : 0 < magnitude m e := mul_pos (by exact_mod_cast hm) (by positivity)
  have hvalue : signed s (magnitude m e) = n := by
    simp only [integer?, toRat?] at hn
    split at hn
    · rename_i hden
      cases hn
      exact (Rat.den_eq_one_iff _).1 hden |>.symm
    · cases hn
  have habs : ((n.natAbs : Nat) : Rat) = |(n : Rat)| := by rw [Nat.cast_natAbs, Int.cast_abs]
  rw [habs, ← hvalue]
  have hsign : n < 0 ↔ signed s (magnitude m e) < 0 := by
    rw [hvalue]
    exact Int.cast_lt_zero.symm
  rw [hsign]
  cases s with
  | false => simp [signed, abs_of_pos hpos, hpos.le]
  | true => simp [signed, abs_of_pos hpos, hpos]

theorem text_eq_withSign {s : Bool} {m : Nat} {e : Int} {h : Canonical m e} (hm : 0 < m)
    (hplain : 'e' ∉ (finite s m e h).text.toList) :
    ∃ cs, Plain cs (finite false m e h) ∧ (finite s m e h).text = withSign s cs := by
  rcases hd : (finite s m e h).decimal? with _ | d
  · cases hd
  have hpos : 0 < d.coefficient := by
    cases hd
    exact (Decimal.trim_near
      (Decimal.shortest_near (Decimal.coefficient_ofBinary e hm))).positive
  have htext : (finite s m e h).text = withSign s (Numeral.ofDecimal d) := by
    simp only [text, hd, Option.map_some, Option.getD_some]
  have hnumeral : 'e' ∉ Numeral.ofDecimal d := by
    rw [htext, withSign, String.toList_ofList] at hplain
    split at hplain
    · exact List.not_mem_of_not_mem_cons hplain
    · exact hplain
  have hplain := plain_ofDecimal hpos hnumeral
  rw [ofDecimal_of_decimal? hd] at hplain
  exact ⟨_, hplain, htext⟩

/-- A number other than zero is written as an integer or as the shortest decimal. -/
theorem compact_eq_or {x : Double} (hzero : x.isZero = false) :
    (∃ n, x.integer? = some n ∧ x.compact = String.ofList (Numeral.ofInt n)) ∨
      x.compact = x.text := by
  simp only [compact, hzero, Bool.false_eq_true, if_false]
  cases hn : x.integer? with
  | none => exact .inr rfl
  | some n =>
      by_cases hsmall : n.natAbs < Nat.pow 10 16
      · exact .inl ⟨n, rfl, if_pos hsmall⟩
      · exact .inr (if_neg hsmall)

/-- In steps the number is shown as a plain numeral of its distance from zero, after a
    minus if it is negative. -/
structure ShownAs (x : Double) (cs : List Char) : Prop where
  plain : Plain cs x.abs
  compact_eq : x.compact = withSign x.isNegative cs

/-- A finite number that is not shown with an exponent is shown as a plain numeral. -/
theorem exists_shownAs {x : Double} (hfinite : x.isFinite = true)
    (hplain : 'e' ∉ x.compact.toList) : ∃ cs, x.ShownAs cs := by
  cases x with
  | infinite s => cases hfinite
  | nan => cases hfinite
  | finite s m e h =>
      rcases Nat.eq_zero_or_pos m with rfl | hm
      · have hvalue : magnitude 0 e = (0 : Nat) := by simp [magnitude]
        exact ⟨_, plain_ofNat h hvalue, by simp [compact, isZero, isNegative, withSign,
          Numeral.ofNat]⟩
      · have hnegative : (finite s m e h).isNegative = s := by simp [isNegative, hm.ne']
        rcases compact_eq_or (x := finite s m e h) (by simp [isZero, hm.ne']) with
          ⟨n, hn, hcompact⟩ | hcompact
        · rcases magnitude_of_integer? hm hn with ⟨hvalue, hsign⟩
          refine ⟨_, plain_ofNat h hvalue, ?_⟩
          rw [hnegative, hcompact, withSign, Numeral.ofInt]
          simp only [hsign]
        · rw [hcompact] at hplain
          rcases text_eq_withSign hm hplain with ⟨cs, hcs, htext⟩
          exact ⟨cs, hcs, by rw [hnegative, hcompact, htext]⟩

theorem isFinite_abs (x : Double) : x.abs.isFinite = x.isFinite := by
  cases x <;> rfl

theorem isZero_abs (x : Double) : x.abs.isZero = x.isZero := by
  cases x <;> rfl

theorem isZero_of_isNegative {x : Double} (h : x.isNegative = true) : x.isZero = false := by
  cases x <;> simp_all [isNegative, isZero]

/-- A clean number is its distance from zero, or the opposite of it. -/
theorem eq_abs_or {x : Double} (h : x.Clean) :
    (x.isNegative = false ∧ x = x.abs) ∨ (x.isNegative = true ∧ x = -x.abs) := by
  cases x with
  | infinite s => cases h.1
  | nan => cases h.1
  | finite s m e hcanonical =>
      cases s with
      | false => exact .inl ⟨rfl, rfl⟩
      | true =>
          refine .inr ⟨?_, rfl⟩
          -- Only the negative zero has a sign and is not negative.
          have hm : m ≠ 0 := by
            rintro rfl
            have he : e = -1074 := hcanonical.2.2.2.resolve_left (by decide)
            subst he
            exact h.2 rfl
          simp [isNegative, hm]

end Double

end Reckoner
