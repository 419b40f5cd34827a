import Mathlib
import Reckoner.Proofs.Number.ReadBack
import Reckoner.Proofs.Scan.Lexeme

/-!
# Notation of Numbers

The numerals of the format in which programs exchange numbers, with the doubles that
they denote. A numeral has a whole part without a zero too many, and it may have a minus
before it and a fraction and an exponent after it. It denotes the double that is
nearest to its value.

Nothing is lost between a finite double and its text. The text is such a numeral
(`denotes_text`), and where a numeral ends is seen from the character after it, so one
that can be read is read in one way only (`denotes_unique`).

## Main definitions

* `IsWhole`, `IsFraction`, `IsExponent`: The parts of a numeral.
* `Denotes`: The numerals with the doubles that they denote.
* `isNumeral`: The characters that a numeral may be continued by.

## Theorems

* `eq_of_append_eq`: Two texts that start in two runs start in the same run.
* `denotes_unique`: A text starts with one numeral at most.
* `denotes_ofDecimal`: A decimal is written as a numeral of its value.
* `denotes_text`: The text of a finite double denotes the double.
-/

namespace Reckoner

namespace Lexical

/-- Where a run of characters ends is seen from the characters. -/
theorem eq_of_append_eq {test : Char → Bool} {run run' rest rest' : List Char}
    (hrun : ∀ c ∈ run, test c = true) (hrun' : ∀ c ∈ run', test c = true)
    (hrest : Clear test rest) (hrest' : Clear test rest') (h : run ++ rest = run' ++ rest') :
    run = run' ∧ rest = rest' := by
  rcases takeWhile_append_of_clear hrun hrest with ⟨htake, hdrop⟩
  rcases takeWhile_append_of_clear hrun' hrest' with ⟨htake', hdrop'⟩
  exact ⟨by rw [← htake, h, htake'], by rw [← hdrop, h, hdrop']⟩

end Lexical

namespace Numeral

open Lexical

/-- Digits without a zero too many before them. -/
structure IsWhole (ds : List Char) : Prop where
  nonempty : ds ≠ []
  digits : ∀ c ∈ ds, c.isDigit = true
  leading : ds.head? = some '0' → ds = ['0']

/-- A fraction, with its digits, or nothing. -/
inductive IsFraction : List Char → List Char → Prop
  | absent : IsFraction [] []
  | present {ds : List Char} (hne : ds ≠ []) (hdigits : ∀ c ∈ ds, c.isDigit = true) :
      IsFraction ('.' :: ds) ds

/-- An exponent, with its value, or nothing. -/
inductive IsExponent : List Char → Int → Prop
  | absent : IsExponent [] 0
  | present {mark : Char} {sign ds : List Char} (hmark : mark ∈ ['e', 'E'])
      (hsign : sign ∈ [[], ['+'], ['-']]) (hne : ds ≠ []) (hdigits : ∀ c ∈ ds, c.isDigit = true) :
      IsExponent (mark :: (sign ++ ds))
        (if sign = ['-'] then -(Nat.ofDigitChars 10 ds 0 : Int) else Nat.ofDigitChars 10 ds 0)

/-- A minus if it is needed. -/
def minus (negative : Bool) : List Char := if negative then ['-'] else []

/-- The numerals, each with the nearest double to its value. -/
inductive Denotes : List Char → Double → Prop
  | mk {whole point fraction scale : List Char} {exponent : Int} (negative : Bool)
      (hwhole : IsWhole whole) (hfraction : IsFraction point fraction)
      (hexponent : IsExponent scale exponent) :
      Denotes (minus negative ++ (whole ++ (point ++ scale)))
        (Double.ofDecimal negative
          ⟨Nat.ofDigitChars 10 (whole ++ fraction) 0, exponent - fraction.length⟩)

/-- The characters that a numeral may be continued by. -/
def isNumeral (c : Char) : Bool := isNumeric c || c == 'e' || c == 'E'

section Reading

variable {rest rest' : List Char}

theorem isNumeric_clear_of_isNumeral (h : Clear isNumeral rest) : Clear isNumeric rest := by
  intro c hc
  have hclear := h c hc
  simp only [isNumeral, Bool.or_eq_false_iff] at hclear
  exact hclear.1.1

theorem isDigit_clear_of_isNumeral (h : Clear isNumeral rest) : Clear Char.isDigit rest :=
  isDigit_clear_of_isNumeric (isNumeric_clear_of_isNumeral h)

/-- An exponent does not continue a fraction. -/
theorem isNumeric_clear_exponent {scale : List Char} {exponent : Int}
    (h : IsExponent scale exponent) (hrest : Clear isNumeral rest) :
    Clear isNumeric (scale ++ rest) := by
  refine .append ?_ (isNumeric_clear_of_isNumeral hrest)
  cases h with
  | absent => rintro c ⟨⟩
  | present hmark _ _ _ =>
      rintro c ⟨⟩
      rcases List.mem_pair.1 hmark with rfl | rfl <;> rfl

/-- A fraction does not continue a whole part. -/
theorem isDigit_clear_fraction {point fraction : List Char} (h : IsFraction point fraction)
    (hrest : Clear isNumeric rest) : Clear Char.isDigit (point ++ rest) := by
  refine .append ?_ (isDigit_clear_of_isNumeric hrest)
  cases h with
  | absent => rintro c ⟨⟩
  | present _ _ =>
      rintro c ⟨⟩
      rfl

/-- A run of digits does not start with anything else. -/
theorem clear_digits {ds : List Char} (hne : ds ≠ []) (hdigits : ∀ c ∈ ds, c.isDigit = true)
    (rest : List Char) : Clear (fun c => !c.isDigit) (ds ++ rest) := by
  rcases List.exists_cons_of_ne_nil hne with ⟨d, ds, rfl⟩
  rintro c ⟨⟩
  simp only [hdigits d (.head _), Bool.not_true]

theorem not_clear_mark {mark : Char} {cs : List Char} (hmark : mark ∈ ['e', 'E'])
    (h : Clear isNumeral (mark :: cs)) : False := by
  have hclear := h mark rfl
  rcases List.mem_pair.1 hmark with rfl | rfl <;> cases hclear

/-- A text that starts with an exponent starts with one exponent only. -/
theorem isExponent_unique {scale scale' : List Char} {exponent exponent' : Int}
    (h : IsExponent scale exponent) (h' : IsExponent scale' exponent')
    (hrest : Clear isNumeral rest) (hrest' : Clear isNumeral rest')
    (heq : scale ++ rest = scale' ++ rest') :
    scale = scale' ∧ exponent = exponent' ∧ rest = rest' := by
  cases h with
  | absent =>
      cases h' with
      | absent => exact ⟨rfl, rfl, heq⟩
      | present hmark _ _ _ =>
          rw [List.nil_append] at heq
          rw [heq] at hrest
          exact (not_clear_mark hmark hrest).elim
  | @present mark sign ds hmark hsign hne hdigits =>
      cases h' with
      | absent =>
          rw [List.nil_append] at heq
          rw [← heq] at hrest'
          exact (not_clear_mark hmark hrest').elim
      | @present mark' sign' ds' hmark' hsign' hne' hdigits' =>
          have hsigns : ∀ sign ∈ [[], ['+'], ['-']], ∀ c ∈ sign, (!c.isDigit) = true := by
            simp
          simp only [List.cons_append, List.cons.injEq, List.append_assoc] at heq
          rcases heq with ⟨rfl, hafter⟩
          rcases eq_of_append_eq (hsigns sign hsign) (hsigns sign' hsign')
            (clear_digits hne hdigits rest) (clear_digits hne' hdigits' rest') hafter with
            ⟨rfl, hdigit⟩
          rcases eq_of_append_eq hdigits hdigits' (isDigit_clear_of_isNumeral hrest)
            (isDigit_clear_of_isNumeral hrest') hdigit with ⟨rfl, rfl⟩
          exact ⟨rfl, rfl, rfl⟩

/-- So does one that starts with a fraction. -/
theorem isFraction_unique {point point' fraction fraction' : List Char}
    (h : IsFraction point fraction) (h' : IsFraction point' fraction')
    (hrest : Clear isNumeric rest) (hrest' : Clear isNumeric rest')
    (heq : point ++ rest = point' ++ rest') :
    point = point' ∧ fraction = fraction' ∧ rest = rest' := by
  cases h with
  | absent =>
      cases h' with
      | absent => exact ⟨rfl, rfl, heq⟩
      | present _ _ =>
          rw [List.nil_append] at heq
          rw [heq] at hrest
          cases hrest '.' rfl
  | present hne hdigits =>
      cases h' with
      | absent =>
          rw [List.nil_append] at heq
          rw [← heq] at hrest'
          cases hrest' '.' rfl
      | present hne' hdigits' =>
          simp only [List.cons_append, List.cons.injEq, true_and] at heq
          rcases eq_of_append_eq hdigits hdigits' (isDigit_clear_of_isNumeric hrest)
            (isDigit_clear_of_isNumeric hrest') heq with ⟨rfl, rfl⟩
          exact ⟨rfl, rfl, rfl⟩

/-- A minus is told from a digit. -/
theorem minus_unique {negative negative' : Bool} {whole whole' : List Char} (h : IsWhole whole)
    (h' : IsWhole whole')
    (heq : minus negative ++ (whole ++ rest) = minus negative' ++ (whole' ++ rest')) :
    negative = negative' ∧ whole ++ rest = whole' ++ rest' := by
  have hminus : ∀ {ds r : List Char}, IsWhole ds → ∀ cs, '-' :: cs ≠ ds ++ r := by
    intro ds r hds cs hcs
    rcases List.exists_cons_of_ne_nil hds.nonempty with ⟨d, ds, rfl⟩
    cases hcs
    cases hds.digits '-' (.head _)
  cases negative with
  | false =>
      cases negative' with
      | false => exact ⟨rfl, heq⟩
      | true => exact (hminus h _ heq.symm).elim
  | true =>
      cases negative' with
      | false => exact (hminus h' _ heq).elim
      | true => exact ⟨rfl, List.cons.inj heq |>.2⟩

/-- The parts of a numeral are read off the text, if it is cut off where the numeral may
    not continue. -/
theorem parts_unique {negative negative' : Bool} {whole point fraction scale : List Char}
    {whole' point' fraction' scale' : List Char} {exponent exponent' : Int} (hwhole : IsWhole whole)
    (hfraction : IsFraction point fraction) (hexponent : IsExponent scale exponent)
    (hwhole' : IsWhole whole') (hfraction' : IsFraction point' fraction')
    (hexponent' : IsExponent scale' exponent') (hrest : Clear isNumeral rest)
    (hrest' : Clear isNumeral rest')
    (heq : minus negative ++ (whole ++ (point ++ (scale ++ rest))) =
      minus negative' ++ (whole' ++ (point' ++ (scale' ++ rest')))) :
    negative = negative' ∧ whole = whole' ∧ (point = point' ∧ fraction = fraction') ∧
      scale = scale' ∧ exponent = exponent' := by
  -- Sign, whole part, fraction and exponent are read off one after the other.
  rcases minus_unique hwhole hwhole' heq with ⟨rfl, hunsigned⟩
  have hscale := isNumeric_clear_exponent hexponent hrest
  have hscale' := isNumeric_clear_exponent hexponent' hrest'
  rcases eq_of_append_eq hwhole.digits hwhole'.digits (isDigit_clear_fraction hfraction hscale)
    (isDigit_clear_fraction hfraction' hscale') hunsigned with ⟨rfl, hafter⟩
  rcases isFraction_unique hfraction hfraction' hscale hscale' hafter with ⟨rfl, rfl, hlast⟩
  rcases isExponent_unique hexponent hexponent' hrest hrest' hlast with ⟨rfl, rfl, -⟩
  exact ⟨rfl, rfl, ⟨rfl, rfl⟩, rfl, rfl⟩

/-- A text starts with one numeral at most, if it is cut off where it may not continue. -/
theorem denotes_unique {cs cs' : List Char} {x x' : Double} (h : Denotes cs x)
    (h' : Denotes cs' x') (hrest : Clear isNumeral rest) (hrest' : Clear isNumeral rest')
    (heq : cs ++ rest = cs' ++ rest') : cs = cs' ∧ x = x' := by
  cases h with
  | @mk whole point fraction scale exponent negative hwhole hfraction hexponent =>
  cases h' with
  | @mk whole' point' fraction' scale' exponent' negative' hwhole' hfraction' hexponent' =>
  simp only [List.append_assoc] at heq
  rcases parts_unique hwhole hfraction hexponent hwhole' hfraction' hexponent' hrest hrest' heq with
    ⟨rfl, rfl, ⟨rfl, rfl⟩, rfl, rfl⟩
  exact ⟨rfl, rfl⟩

end Reading

section Writing

theorem ofMagnitude_true (q : Rat) : Double.ofMagnitude true q = -Double.ofMagnitude false q := by
  simp only [Double.ofMagnitude]
  split
  · rfl
  · split <;> rfl

/-- Decimals that are the same double without a sign are so with one. -/
theorem ofDecimal_congr {d d' : Decimal} (h : Double.ofDecimal false d = Double.ofDecimal false d')
    (negative : Bool) : Double.ofDecimal negative d = Double.ofDecimal negative d' := by
  cases negative with
  | false => exact h
  | true =>
      simp only [Double.ofDecimal, ofMagnitude_true] at h ⊢
      rw [h]

/-- A positive number is not written with a zero in front. -/
theorem head_toDigits {n : Nat} (h : 0 < n) : (Nat.toDigits 10 n).head? ≠ some '0' := by
  have hdigit : ∀ d < 10, 0 < d → some (Nat.digitChar d) ≠ some '0' := by decide
  induction n using Nat.strong_induction_on with
  | _ n ih =>
      by_cases hsmall : n < 10
      · rw [Nat.toDigits_of_lt_base hsmall]
        exact hdigit n hsmall h
      · have hrest := ih (n / 10) (by omega) (by omega)
        have hne : Nat.toDigits 10 (n / 10) ≠ [] := Nat.toDigits_ne_nil
        rw [Nat.toDigits_of_base_le (by decide) (Nat.not_lt.1 hsmall),
          List.head?_append_of_ne_nil _ hne]
        exact hrest

/-- The point of a positional numeral comes after one zero or after the digits of the
    number. -/
theorem positional_starts (ds : List Char) (point : Int) (hne : ds ≠ []) :
    (∃ rest, positional ds point = '0' :: '.' :: rest) ∨
      (positional ds point).head? = ds.head? := by
  rw [positional]
  split
  · exact .inl ⟨_, rfl⟩
  · rcases List.exists_cons_of_ne_nil hne with ⟨c, cs, rfl⟩
    refine .inr ?_
    split
    · rfl
    · rename_i hpoint _
      rcases Int.eq_succ_of_zero_lt (Int.not_le.1 hpoint) with ⟨n, rfl⟩
      rfl

theorem mem_positional (ds : List Char) (point : Int) : '.' ∈ positional ds point := by
  rw [positional]
  split
  · simp
  · split <;> simp

/-- The whole part of a positional numeral of a positive number has no zero too many. -/
theorem isWhole_of_positional {d : Decimal} (hpos : 0 < d.coefficient) {point : Int}
    {whole fraction : List Char} (h : positional d.digits point = whole ++ '.' :: fraction)
    (hne : whole ≠ []) (hdigits : ∀ c ∈ whole, c.isDigit = true) : IsWhole whole := by
  refine ⟨hne, hdigits, fun hzero => ?_⟩
  rcases List.exists_cons_of_ne_nil hne with ⟨c, cs, rfl⟩
  cases hzero
  rcases positional_starts d.digits point Nat.toDigits_ne_nil with ⟨rest, hstart⟩ | hstart
  · -- After the zero comes the point, and that is no digit of the whole part.
    rw [hstart] at h
    cases cs with
    | nil => rfl
    | cons c cs =>
        simp only [List.cons_append, List.cons.injEq, true_and] at h
        have hdigit := hdigits c (.tail _ (.head _))
        rw [← h.1] at hdigit
        cases hdigit
  · rw [h] at hstart
    exact absurd hstart.symm (head_toDigits hpos)

/-- A decimal in positional form is a numeral of its value. -/
theorem denotes_positional {d : Decimal} (hpos : 0 < d.coefficient) (negative : Bool) :
    Denotes (minus negative ++ positional d.digits (d.digits.length + d.exponent))
      (Double.ofDecimal negative d) := by
  have hplain := Double.plain_positional d
  have hpoint := mem_positional d.digits (d.digits.length + d.exponent)
  generalize hcs : positional d.digits (d.digits.length + d.exponent) = cs at hplain hpoint ⊢
  generalize hx : Double.ofDecimal false d = x at hplain
  cases hplain with
  | integer _ hdigits => cases hdigits _ hpoint
  | @decimal whole fraction hne hdigits hfraction hfdigits =>
      have hvalue : Double.ofDecimal negative d = Double.ofDecimal negative
          ⟨Nat.ofDigitChars 10 (whole ++ fraction) 0, 0 - (fraction.length : Int)⟩ := by
        refine ofDecimal_congr (hx.trans ?_) negative
        rw [Double.ofParts, zero_sub]
      have hdenotes := Denotes.mk negative (isWhole_of_positional hpos hcs hne hdigits)
        (.present hfraction hfdigits) .absent
      rw [List.append_nil, ← hvalue] at hdenotes
      exact hdenotes

theorem ofDigitChars_padded (width n : Nat) : Nat.ofDigitChars 10 (padded width n) 0 = n := by
  rw [padded, Nat.ofDigitChars_append, Nat.ofDigitChars_replicate_zero]
  simp only [Nat.mul_zero, ofNat, Nat.ofDigitChars_ten_toDigits]

theorem isDigit_padded (width n : Nat) : ∀ c ∈ padded width n, c.isDigit = true := by
  rw [padded, List.forall_mem_append]
  exact ⟨Double.isDigit_zeros _, fun c hc =>
    Nat.isDigit_of_mem_toDigits (by decide) (by decide) hc⟩

theorem isExponent_scientific (leading : Int) :
    IsExponent ('e' :: (if leading < 0 then '-' else '+') :: padded 2 leading.natAbs) leading := by
  have hne : padded 2 leading.natAbs ≠ [] := by
    rw [padded]
    exact List.append_ne_nil_of_right_ne_nil _ Nat.toDigits_ne_nil
  have hmark : 'e' ∈ ['e', 'E'] := .head _
  have hexponent := fun sign (hsign : sign ∈ [[], ['+'], ['-']]) =>
    IsExponent.present hmark hsign hne (isDigit_padded 2 leading.natAbs)
  rw [ofDigitChars_padded] at hexponent
  by_cases hnegative : leading < 0
  · have hvalue : -(leading.natAbs : Int) = leading := by omega
    have hminus := hexponent ['-'] (by simp)
    rw [if_pos rfl, hvalue] at hminus
    rw [if_pos hnegative]
    exact hminus
  · have hvalue : (leading.natAbs : Int) = leading := by omega
    have hplus := hexponent ['+'] (by simp)
    rw [if_neg (by decide), hvalue] at hplus
    rw [if_neg hnegative]
    exact hplus

/-- A decimal in exponent form is a numeral of its value. -/
theorem denotes_scientific {d : Decimal} (hpos : 0 < d.coefficient) (negative : Bool) :
    Denotes (minus negative ++ scientific d.digits (d.digits.length + d.exponent - 1))
      (Double.ofDecimal negative d) := by
  have hne : d.digits ≠ [] := Nat.toDigits_ne_nil
  rcases List.exists_cons_of_ne_nil hne with ⟨first, rest, hds⟩
  have hdigits := Double.isDigit_digits d
  have hcoefficient := Double.ofDigitChars_digits d
  have hhead : d.digits.head? ≠ some '0' := head_toDigits hpos
  rw [hds] at hhead
  rw [hds, List.forall_mem_cons] at hdigits
  rw [hds] at hcoefficient
  have hwhole : IsWhole [first] := ⟨by simp, List.forall_mem_singleton.2 hdigits.1, fun h =>
    absurd h hhead⟩
  -- The digits after the first are those after the point, which the exponent makes up for.
  have hvalue : (⟨Nat.ofDigitChars 10 ([first] ++ rest) 0,
      (d.digits.length : Int) + d.exponent - 1 - (rest.length : Int)⟩ : Decimal) = d := by
    have hexponent :
        (d.digits.length : Int) + d.exponent - 1 - (rest.length : Int) = d.exponent := by
      rw [hds, List.length_cons]
      omega
    rw [hexponent, List.singleton_append, hcoefficient]
  have hscale := isExponent_scientific (d.digits.length + d.exponent - 1)
  rw [hds] at hscale ⊢
  rw [hds] at hvalue
  cases rest with
  | nil =>
      have hdenotes := Denotes.mk negative hwhole .absent hscale
      rw [hvalue] at hdenotes
      exact hdenotes
  | cons second rest =>
      have hdenotes := Denotes.mk negative hwhole (.present (by simp) hdigits.2) hscale
      rw [hvalue] at hdenotes
      exact hdenotes

/-- A decimal is written as a numeral of its value. -/
theorem denotes_ofDecimal (d : Decimal) (negative : Bool) :
    Denotes (minus negative ++ ofDecimal d) (Double.ofDecimal negative d) := by
  rw [ofDecimal]
  by_cases hzero : d.coefficient = 0
  · have hwhole : IsWhole ['0'] := ⟨by simp, List.forall_mem_singleton.2 rfl, fun _ => rfl⟩
    have hfraction : IsFraction ['.', '0'] ['0'] :=
      .present (by simp) (List.forall_mem_singleton.2 rfl)
    have hdenotes := Denotes.mk negative hwhole hfraction .absent
    have hvalue : (⟨Nat.ofDigitChars 10 (['0'] ++ ['0']) 0, 0 - (['0'].length : Int)⟩ :
        Decimal).toRat = d.toRat := by
      have hdigits : Nat.ofDigitChars 10 (['0'] ++ ['0']) 0 = 0 := rfl
      simp only [Decimal.toRat, hzero, hdigits, Nat.cast_zero, zero_mul]
    rw [Double.ofDecimal, hvalue] at hdenotes
    rw [if_pos hzero]
    exact hdenotes
  · rw [if_neg hzero]
    have hpos := Nat.pos_of_ne_zero hzero
    split
    · have hpoint :
          (d.digits.length : Int) + d.exponent - 1 + 1 = d.digits.length + d.exponent := by omega
      rw [hpoint]
      exact denotes_positional hpos negative
    · exact denotes_scientific hpos negative

end Writing

end Numeral

theorem Double.withSign_toList (negative : Bool) (cs : List Char) :
    (withSign negative cs).toList = Numeral.minus negative ++ cs := by
  rw [withSign, String.toList_ofList, Numeral.minus]
  cases negative <;> rfl

/-- The text of a finite double is its decimal, after a minus if it has a sign. -/
theorem Double.text_toList {s : Bool} {m : Nat} {e : Int} {h : Canonical m e} {d : Decimal}
    (hd : (finite s m e h).decimal? = some d) :
    (finite s m e h).text.toList = Numeral.minus s ++ Numeral.ofDecimal d := by
  simp only [text, hd, Option.map_some, Option.getD_some, withSign_toList]

/-- The text of a finite double denotes the double, and nothing of it is lost, not even
    the sign of a zero. -/
theorem Double.denotes_text {x : Double} (h : x.isFinite = true) :
    Numeral.Denotes x.text.toList x := by
  cases x with
  | infinite s => cases h
  | nan => cases h
  | finite s m e hcanonical =>
      cases hd : (finite s m e hcanonical).decimal? with
      | none => cases hd
      | some d =>
          have hpositive : ofDecimal false d = finite false m e hcanonical :=
            ofDecimal_of_decimal? hd
          have hvalue : ofDecimal s d = finite s m e hcanonical := by
            cases s with
            | false => exact hpositive
            | true =>
                rw [ofDecimal] at hpositive ⊢
                rw [Numeral.ofMagnitude_true, hpositive]
                rfl
          have hdenotes := Numeral.denotes_ofDecimal d s
          rw [hvalue] at hdenotes
          rw [text_toList hd]
          exact hdenotes

end Reckoner
