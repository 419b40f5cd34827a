import Mathlib
import Reckoner.Proofs.Number.Compact
import Reckoner.Proofs.Number.Fixed

/-!
# Negative Zeros in a Text

Where a text shows a number that is zero and has a minus before it. That is a minus with a
numeral of zeros after it, and whether there is one can be told from the characters: after
the minus come zeros and points and then nothing that would continue a numeral.

A number as it is shown in steps is none. It has a digit other than zero, and the minus of
an exponent has one too. A numeral with decimal places is one if the number is negative and
not more than half a unit of the last place, because then it is rounded to zero, and it
keeps its sign. It keeps it as well where its digits cannot be counted and are all zeros.

## Main definitions

* `StartsInZero`, `ShowsNegativeZero`: The texts with a negative zero in them.

## Theorems

* `shows_cons`, `shows_append`, `shows_plain`: A text is looked through piece by piece.
* `not_shows_compact`: Numbers in steps are not shown as negative zeros.
* `shows_iff_of_isFixed`, `shows_counted_iff`: Which numerals with decimal places are.
-/

namespace Reckoner

namespace Text

open Lexical Numeral

/-- A numeral of zeros comes first: zeros, perhaps with points among them, and nothing after
    them that would continue the numeral. -/
def StartsInZero (cs : List Char) : Prop :=
  ∃ zeros rest, cs = zeros ++ rest ∧ '0' ∈ zeros ∧ (∀ c ∈ zeros, c = '0' ∨ c = '.') ∧
    Clear isNumeral rest

/-- Somewhere in the text a numeral of zeros has a minus before it. -/
def ShowsNegativeZero (cs : List Char) : Prop :=
  ∃ before after, cs = before ++ '-' :: after ∧ StartsInZero after

section Pieces

variable {a b cs : List Char} {c : Char}

theorem isNumeral_of_zeros {zeros : List Char} (h : ∀ c ∈ zeros, c = '0' ∨ c = '.') :
    ∀ c ∈ zeros, isNumeral c = true := by
  intro c hc
  rcases h c hc with rfl | rfl <;> rfl

/-- A text with a character of a numeral in front is not clear of them. -/
theorem eq_nil_of_clear (h : Clear isNumeral cs) (hcs : ∀ c ∈ cs, isNumeral c = true) :
    cs = [] := by
  cases cs with
  | nil => rfl
  | cons c cs =>
      have hclear := h c rfl
      rw [hcs c (.head _)] at hclear
      cases hclear

/-- What comes after a number does not matter for it. -/
theorem startsInZero_append (hb : Clear isNumeral b) :
    StartsInZero (a ++ b) ↔ StartsInZero a := by
  constructor
  · rintro ⟨zeros, rest, heq, hmem, hzeros, hrest⟩
    rcases List.append_eq_append_iff.1 heq with ⟨more, rfl, hmore⟩ | ⟨more, rfl, hmore⟩
    · -- The zeros end with the first part, since the second one does not continue them.
      rw [List.forall_mem_append] at hzeros
      have hnil : more = [] := by
        refine eq_nil_of_clear (fun c hc => hb c ?_) (isNumeral_of_zeros hzeros.2)
        rw [hmore]
        cases more with
        | nil => cases hc
        | cons d more => exact hc
      rw [hnil, List.append_nil] at hmem
      exact ⟨a, [], (List.append_nil a).symm, hmem, hzeros.1, by rintro c ⟨⟩⟩
    · refine ⟨zeros, more, rfl, hmem, hzeros, fun c hc => hrest c ?_⟩
      rw [hmore]
      cases more with
      | nil => cases hc
      | cons d more => exact hc
  · rintro ⟨zeros, rest, rfl, hmem, hzeros, hrest⟩
    exact ⟨zeros, rest ++ b, List.append_assoc _ _ _, hmem, hzeros, hrest.append hb⟩

/-- A numeral of zeros starts with a zero or a point. -/
theorem head_of_startsInZero (h : StartsInZero cs) : cs.head? = some '0' ∨ cs.head? = some '.' := by
  rcases h with ⟨zeros, rest, rfl, hmem, hzeros, -⟩
  rcases List.exists_cons_of_ne_nil (List.ne_nil_of_mem hmem) with ⟨c, zeros, rfl⟩
  rcases hzeros c (.head _) with rfl | rfl
  · exact .inl rfl
  · exact .inr rfl

/-- A text that is one numeral is looked at as a whole. -/
theorem startsInZero_iff (h : ∀ c ∈ cs, isNumeral c = true) :
    StartsInZero cs ↔ '0' ∈ cs ∧ ∀ c ∈ cs, c = '0' ∨ c = '.' := by
  constructor
  · rintro ⟨zeros, rest, rfl, hmem, hzeros, hrest⟩
    rw [List.forall_mem_append] at h
    rw [eq_nil_of_clear hrest h.2, List.append_nil]
    exact ⟨hmem, hzeros⟩
  · rintro ⟨hmem, hzeros⟩
    exact ⟨cs, [], (List.append_nil cs).symm, hmem, hzeros, by rintro c ⟨⟩⟩

theorem not_shows_nil : ¬ ShowsNegativeZero [] := by
  rintro ⟨before, after, heq, -⟩
  simp at heq

/-- The minus is the first character, or it comes later. -/
theorem shows_cons :
    ShowsNegativeZero (c :: cs) ↔ (c = '-' ∧ StartsInZero cs) ∨ ShowsNegativeZero cs := by
  constructor
  · rintro ⟨before, after, heq, hzero⟩
    cases before with
    | nil =>
        cases heq
        exact .inl ⟨rfl, hzero⟩
    | cons d before =>
        cases heq
        exact .inr ⟨before, after, rfl, hzero⟩
  · rintro (⟨rfl, hzero⟩ | ⟨before, after, rfl, hzero⟩)
    · exact ⟨[], cs, rfl, hzero⟩
    · exact ⟨c :: before, after, rfl, hzero⟩

/-- Two pieces are looked through one after the other, if the second one does not continue
    a numeral. -/
theorem shows_append (hb : Clear isNumeral b) :
    ShowsNegativeZero (a ++ b) ↔ ShowsNegativeZero a ∨ ShowsNegativeZero b := by
  -- What a minus in the first piece sees of the second one does not matter.
  induction a with
  | nil => simp only [List.nil_append, not_shows_nil, false_or]
  | cons c a ih =>
      rw [List.cons_append, shows_cons, shows_cons, startsInZero_append hb, ih, or_assoc]

/-- A piece without a minus is skipped. -/
theorem shows_plain (ha : '-' ∉ a) : ShowsNegativeZero (a ++ b) ↔ ShowsNegativeZero b := by
  induction a with
  | nil => rfl
  | cons c a ih =>
      rw [List.mem_cons, not_or] at ha
      have hc : ¬ c = '-' := fun h => ha.1 h.symm
      simp only [List.cons_append, shows_cons, hc, false_and, false_or]
      exact ih ha.2

theorem not_shows_of_not_mem (h : '-' ∉ cs) : ¬ ShowsNegativeZero cs := by
  rintro ⟨before, after, rfl, -⟩
  exact h (by simp)

/-- A minus before a text that has none matters if zeros come after it. -/
theorem shows_minus (negative : Bool) (h : '-' ∉ cs) :
    ShowsNegativeZero (minus negative ++ cs) ↔ negative = true ∧ StartsInZero cs := by
  cases negative with
  | false => simpa [minus] using not_shows_of_not_mem h
  | true =>
      simp only [minus, if_true, List.singleton_append, shows_cons, true_and,
        not_shows_of_not_mem h, or_false]

theorem not_mem_of_isNumeric (h : ∀ c ∈ cs, isNumeric c = true) : '-' ∉ cs := fun hmem => by
  cases h '-' hmem

end Pieces

section Compact

open Double

variable {x : Double} {a : Rat} {d : Decimal} {cs : List Char}

theorem isNumeral_of_isNumeric (h : ∀ c ∈ cs, isNumeric c = true) : ∀ c ∈ cs, isNumeral c = true :=
  fun c hc => by rw [isNumeral, h c hc, Bool.true_or, Bool.true_or]

theorem isNumeric_of_isDigit (h : ∀ c ∈ cs, c.isDigit = true) : ∀ c ∈ cs, isNumeric c = true :=
  fun c hc => by rw [isNumeric, h c hc, Bool.true_or]

/-- Digits that make up zero are zeros. -/
theorem ofDigitChars_eq_zero_iff (h : ∀ c ∈ cs, c.isDigit = true) :
    Nat.ofDigitChars 10 cs 0 = 0 ↔ ∀ c ∈ cs, c = '0' := by
  induction cs with
  | nil => simp
  | cons c cs ih =>
      rw [List.forall_mem_cons] at h
      have hdigit : c.toNat - '0'.toNat = 0 ↔ c = '0' := by
        have hlow := (Char.isDigit_iff_toNat.1 h.1).1
        exact ⟨fun hzero => Char.toNat_inj.1 (by omega), by rintro rfl; rfl⟩
      rw [Nat.ofDigitChars_cons, Nat.ofDigitChars_eq_ofDigitChars_zero, List.forall_mem_cons,
        ← ih h.2, ← hdigit]
      simp

/-- No digit is a point. -/
theorem zeros_iff (h : ∀ c ∈ cs, c.isDigit = true) :
    (∀ c ∈ cs, c = '0' ∨ c = '.') ↔ ∀ c ∈ cs, c = '0' := by
  constructor
  · intro hzeros c hc
    refine (hzeros c hc).resolve_right ?_
    rintro rfl
    cases h '.' hc
  · exact fun hzeros c hc => .inl (hzeros c hc)

/-- An integer other than zero starts with a digit other than zero. -/
theorem not_shows_ofInt (n : Int) : ¬ ShowsNegativeZero (ofInt n) := by
  have hdigits := (isWhole_ofNat n.natAbs).digits
  rw [ofInt_eq, shows_minus _ (not_mem_of_isNumeric (isNumeric_of_isDigit hdigits))]
  rintro ⟨hnegative, hzero⟩
  have hpos : 0 < n.natAbs := by
    have := of_decide_eq_true hnegative
    omega
  rcases head_of_startsInZero hzero with hhead | hhead
  · exact head_toDigits hpos hhead
  · cases hdigits '.' (List.mem_of_mem_head? hhead)

/-- A numeral with an exponent is its digits, the exponent and what is between them. -/
theorem exists_mantissa (ds : List Char) (leading : Int) : ∃ mantissa,
    Numeral.scientific ds leading = mantissa ++ 'e' :: (if leading < 0 then '-' else '+') ::
      padded 2 leading.natAbs ∧
    mantissa.head? = ds.head? ∧ ∀ c ∈ mantissa, c ∈ ds ∨ c = '.' := by
  rcases ds with _ | ⟨d, _ | ⟨e, rest⟩⟩
  · exact ⟨[], rfl, rfl, by simp⟩
  · exact ⟨[d], rfl, rfl, by simp⟩
  · exact ⟨d :: '.' :: e :: rest, rfl, rfl, by simp; tauto⟩

/-- The minus of an exponent is followed by a digit other than zero. -/
theorem not_shows_exponent (leading : Int) : ¬ ShowsNegativeZero
    ((if leading < 0 then '-' else '+') :: padded 2 leading.natAbs) := by
  have hdigits := isDigit_padded 2 leading.natAbs
  have hnumeric := isNumeric_of_isDigit hdigits
  rw [shows_cons, startsInZero_iff (isNumeral_of_isNumeric hnumeric)]
  rintro (⟨hsign, -, hzeros⟩ | hlater)
  · have hnegative : leading < 0 := by
      by_contra hnot
      rw [if_neg hnot] at hsign
      cases hsign
    have hvalue := (ofDigitChars_eq_zero_iff hdigits).2 ((zeros_iff hdigits).1 hzeros)
    rw [ofDigitChars_padded] at hvalue
    omega
  · exact not_shows_of_not_mem (not_mem_of_isNumeric hnumeric) hlater

/-- A numeral with an exponent starts with a digit other than zero, and the exponent does
    not show a negative zero either. -/
theorem not_shows_scientific (hpos : 0 < d.coefficient) (negative : Bool) (leading : Int) :
    ¬ ShowsNegativeZero (minus negative ++ Numeral.scientific d.digits leading) := by
  have hdigits := isDigit_digits d
  have hleading : d.digits.head? ≠ some '0' := head_toDigits hpos
  rcases List.exists_cons_of_ne_nil d.digits_ne_nil with ⟨first, rest, hds⟩
  rcases exists_mantissa d.digits leading with ⟨mantissa, hsplit, hhead, hchars⟩
  have hplain : '-' ∉ mantissa := by
    intro hmem
    rcases hchars '-' hmem with hmem | hpoint
    · cases hdigits '-' hmem
    · cases hpoint
  -- The minus of the exponent is the only one in the numeral itself.
  have hunsigned : ¬ ShowsNegativeZero (Numeral.scientific d.digits leading) := by
    rw [hsplit, shows_plain hplain, shows_cons]
    rintro (⟨hmark, -⟩ | hexponent)
    · cases hmark
    · exact not_shows_exponent leading hexponent
  have hfirst : (Numeral.scientific d.digits leading).head? = some first := by
    rw [hsplit, List.head?_append, hhead, hds]
    rfl
  cases negative with
  | false => exact hunsigned
  | true =>
      rw [minus, if_pos rfl, List.singleton_append, shows_cons]
      rintro (⟨-, hzero⟩ | hlater)
      · rw [hds] at hdigits hleading
        rcases head_of_startsInZero hzero with hstart | hstart
        · exact hleading (hfirst.symm.trans hstart)
        · rw [hfirst] at hstart
          cases hstart
          cases hdigits '.' (.head _)
      · exact hunsigned hlater

/-- A numeral with a point ends with a digit other than zero. -/
theorem not_shows_positional (h : Written a cs d) (hexponent : d.exponent < 0) (negative : Bool) :
    ¬ ShowsNegativeZero
      (minus negative ++ Numeral.positional d.digits (d.digits.length + d.exponent)) := by
  have hnumeric := isNumeric_of_plain (plain_positional d)
  have hpoint : d.digits.length + d.exponent < d.digits.length := by omega
  have hdigits := d.digits_ne_nil
  rw [shows_minus _ (not_mem_of_isNumeric hnumeric),
    startsInZero_iff (isNumeral_of_isNumeric hnumeric)]
  rintro ⟨-, -, hzeros⟩
  have hlast := Decimal.getLast?_digits h.trimmed
  have hend := getLast?_positional hdigits hpoint
  rw [List.getLast?_eq_some_getLast hdigits] at hlast hend
  rcases hzeros _ (List.mem_of_getLast? hend) with hzero | hpoint
  · exact hlast (congrArg some hzero)
  · have hdigit := isDigit_digits d _ (List.getLast_mem hdigits)
    rw [hpoint] at hdigit
    cases hdigit

/-- A finite number is not shown as a negative zero. -/
theorem not_shows_compact_of_toRat? (hx : x.toRat? = some a) :
    ¬ ShowsNegativeZero x.compact.toList := by
  by_cases ha : Integral a
  · rcases ha.1 with ⟨n, rfl⟩
    rw [compact_of_integral hx ha]
    exact not_shows_ofInt n
  · rcases exists_written hx ha with ⟨d, hd⟩
    rcases hd.form with ⟨negative, leading, heq⟩ | ⟨hexponent, negative, heq⟩
    · rw [heq]
      exact not_shows_scientific hd.positive negative leading
    · rw [heq]
      exact not_shows_positional hd hexponent negative

/-- Neither is what is not a number. -/
theorem not_shows_compact (x : Double) : ¬ ShowsNegativeZero x.compact.toList := by
  have hword : ∀ negative, ¬ ShowsNegativeZero (minus negative ++ ['i', 'n', 'f']) := by
    intro negative
    rw [shows_minus _ (by decide)]
    rintro ⟨-, hzero⟩
    rcases head_of_startsInZero hzero with hhead | hhead <;> cases hhead
  cases x with
  | finite s m e hc => exact not_shows_compact_of_toRat? rfl
  | infinite s =>
      have hcompact : (infinite s).compact = withSign s ['i', 'n', 'f'] := rfl
      rw [hcompact, withSign_toList]
      exact hword s
  | nan => exact not_shows_of_not_mem (by decide)

end Compact

section Fixed

open Double

variable {x : Double} {a : Rat} {cs : List Char} {negative : Bool} {places m : Nat}

/-- A numeral with decimal places shows a negative zero if there is a minus and the digits
    make up zero. -/
theorem shows_iff_of_isFixed (h : IsFixed negative places cs m) :
    ShowsNegativeZero cs ↔ negative = true ∧ m = 0 := by
  cases h with
  | @mk whole point fraction _ _ hwhole hfraction _ =>
  have hpoint : (∀ c ∈ fraction, c.isDigit = true) ∧ (∀ c ∈ point, isNumeric c = true) ∧
      ((∀ c ∈ point, c = '0' ∨ c = '.') ↔ ∀ c ∈ fraction, c = '0') := by
    cases hfraction with
    | absent => simp
    | present hne hdigits =>
        simp only [List.forall_mem_cons, zeros_iff hdigits, or_true, true_and]
        exact ⟨hdigits, ⟨rfl, isNumeric_of_isDigit hdigits⟩, trivial⟩
  have hnumeric : ∀ c ∈ whole ++ point, isNumeric c = true :=
    List.forall_mem_append.2 ⟨isNumeric_of_isDigit hwhole.digits, hpoint.2.1⟩
  have hdigits : ∀ c ∈ whole ++ fraction, c.isDigit = true :=
    List.forall_mem_append.2 ⟨hwhole.digits, hpoint.1⟩
  rw [shows_minus _ (not_mem_of_isNumeric hnumeric),
    startsInZero_iff (isNumeral_of_isNumeric hnumeric), ofDigitChars_eq_zero_iff hdigits,
    List.forall_mem_append, List.forall_mem_append, hpoint.2.2, zeros_iff hwhole.digits]
  refine and_congr_right fun _ => and_iff_right_of_imp fun hzeros => ?_
  -- The whole part has a digit.
  rcases List.exists_cons_of_ne_nil hwhole.nonempty with ⟨c, rest, rfl⟩
  rw [hzeros.1 c (.head _)]
  exact .head _

/-- A number with decimal places is shown as a negative zero if it is negative and not more
    than half a unit of the last place, or if its digits cannot be counted. -/
theorem shows_counted_iff (hx : x.toRat? = some a) (places : Nat) :
    ShowsNegativeZero (x.counted places).toList ↔
      a < 0 ∧ (|a| * (10 : Rat) ^ places ≤ 1 / 2 ∨ ¬ HasRoom a places) := by
  have hnonneg : (0 : Rat) ≤ |a| * (10 : Rat) ^ places := by positivity
  have hunits : 0 ≤ Rounding.halfEven (|a| * (10 : Rat) ^ places) :=
    Rounding.le_halfEven (by exact_mod_cast hnonneg)
  by_cases hroom : HasRoom a places
  · rw [counted_of_hasRoom hx hroom, withSign_toList, shows_iff_of_isFixed (isFixed_scaled _ _ _),
      decide_eq_true_eq, or_iff_left (not_not_intro hroom),
      ← Rounding.halfEven_eq_zero_iff hnonneg]
    refine and_congr_right fun _ => ?_
    omega
  · rw [counted_of_not_hasRoom hx hroom, withSign_toList,
      shows_iff_of_isFixed (isFixed_scaled _ _ _), decide_eq_true_eq, and_iff_left rfl]
    exact (and_iff_left (.inr hroom)).symm

end Fixed

end Text

end Reckoner
