import Mathlib
import Reckoner.Proofs.Number.Nearest
import Reckoner.Proofs.Number.Notation

/-!
# Reading a Numeral

What a numeral says, before it is rounded, and what it is read as. A numeral spells a
rational, exactly and only one. Reading it comes to the double that is nearest to that
rational, and a zero has the sign that stands in the text (`ReadsAs`). That leaves one
double for a text, and it is the one that the numeral was said to denote.

A numeral without a point and an exponent is an integer, and one with an exponent is in
scientific notation. Which of them a text is can be told from its characters.

## Main definitions

* `Spells`: The numerals with their exact values.
* `ReadsAs`: A text and the double that is read from it.
* `IsInteger`, `IsScientific`: Numerals without a point, and with an exponent.

## Theorems

* `spells_unique`: A text spells one rational at most.
* `ReadsAs.unique`: It is read as one double at most.
* `readsAs_of_denotes`: What a numeral denotes is what it is read as.
* `isScientific_of_mem`, `mem_of_isScientific`: An exponent is seen from its mark.
-/

namespace Reckoner

/-- A double is known from its sign and what is left without the sign of a zero. -/
theorem Double.eq_of_unsignedZero {x y : Double} (h : x.unsignedZero = y.unsignedZero)
    (hsign : x.signBit = y.signBit) : x = y := by
  have hvalue := congrArg toRat? h
  rw [toRat?_unsignedZero, toRat?_unsignedZero] at hvalue
  cases x with
  | finite s m e hc =>
      rcases toRat?_eq_some hvalue.symm with ⟨t, n, f, hc', rfl, heq⟩
      cases hsign
      have habs := congrArg (|·|) heq
      simp only [abs_signed, abs_of_nonneg (magnitude_nonneg _ _)] at habs
      rcases eq_of_magnitude_eq hc hc' habs with ⟨rfl, rfl⟩
      rfl
  | infinite s =>
      cases y with
      | finite t n f hc' => cases hvalue
      | infinite t =>
          cases hsign
          rfl
      | nan => cases h
  | nan =>
      cases y with
      | finite t n f hc' => cases hvalue
      | infinite t => cases h
      | nan => rfl

namespace Numeral

open Lexical

/-- The numerals, each with its value. -/
inductive Spells : List Char → Rat → Prop
  | mk {whole point fraction scale : List Char} {exponent : Int} (negative : Bool)
      (hwhole : IsWhole whole) (hfraction : IsFraction point fraction)
      (hexponent : IsExponent scale exponent) :
      Spells (minus negative ++ (whole ++ (point ++ scale)))
        (Double.signed negative
          (Decimal.toRat ⟨Nat.ofDigitChars 10 (whole ++ fraction) 0, exponent - fraction.length⟩))

/-- A text is read as the double nearest to the value that it spells, with the sign that
    stands in it. -/
def ReadsAs (cs : List Char) (x : Double) : Prop :=
  ∃ q, Spells cs q ∧ Double.IsRounded q x ∧ x.signBit = decide (cs.head? = some '-')

/-- A numeral that is an integer: a minus, if there is one, and digits. -/
def IsInteger (cs : List Char) : Prop :=
  ∃ negative whole, IsWhole whole ∧ cs = minus negative ++ whole

/-- A numeral with an exponent. -/
def IsScientific (cs : List Char) : Prop :=
  ∃ negative whole point fraction scale exponent, IsWhole whole ∧ IsFraction point fraction ∧
    IsExponent scale exponent ∧ scale ≠ [] ∧ cs = minus negative ++ (whole ++ (point ++ scale))

section Reading

variable {cs : List Char} {q q' : Rat} {x y : Double}

/-- A text spells one rational at most. -/
theorem spells_unique (h : Spells cs q) (h' : Spells cs q') : q = q' := by
  generalize hcs : cs = cs' at h'
  cases h with
  | @mk whole point fraction scale exponent negative hwhole hfraction hexponent =>
  cases h' with
  | @mk whole' point' fraction' scale' exponent' negative' hwhole' hfraction' hexponent' =>
  have hend : Clear isNumeral [] := by rintro c ⟨⟩
  rcases parts_unique hwhole hfraction hexponent hwhole' hfraction' hexponent' hend hend
    (by simpa only [List.append_nil] using hcs) with ⟨rfl, rfl, ⟨rfl, rfl⟩, rfl, rfl⟩
  rfl

/-- A text is read as one double at most. -/
theorem ReadsAs.unique (h : ReadsAs cs x) (h' : ReadsAs cs y) : x = y := by
  rcases h with ⟨q, hspells, hrounded, hsign⟩
  rcases h' with ⟨q', hspells', hrounded', hsign'⟩
  cases spells_unique hspells hspells'
  exact Double.eq_of_unsignedZero (hrounded.unique hrounded') (hsign.trans hsign'.symm)

/-- The minus of a numeral comes first, and nothing else can be in its place. -/
theorem head_minus {negative : Bool} {whole : List Char} (h : IsWhole whole) (rest : List Char) :
    decide ((minus negative ++ (whole ++ rest)).head? = some '-') = negative := by
  cases negative with
  | true => rfl
  | false =>
      rcases List.exists_cons_of_ne_nil h.nonempty with ⟨c, ds, rfl⟩
      have hdigit := h.digits c (.head _)
      refine decide_eq_false ?_
      rintro ⟨⟩
      cases hdigit

/-- What a numeral denotes is the nearest double to the value that it spells. -/
theorem readsAs_of_denotes (h : Denotes cs x) : ReadsAs cs x := by
  cases h with
  | @mk whole point fraction scale exponent negative hwhole hfraction hexponent =>
  refine ⟨_, .mk negative hwhole hfraction hexponent, ?_, ?_⟩
  · exact Double.isRounded_ofMagnitude negative (Decimal.toRat_nonneg _)
  · rw [head_minus hwhole, Double.ofDecimal, Double.signBit_ofMagnitude]

/-- A number is read from a text exactly if the text denotes it. -/
theorem readsAs_iff (h : Denotes cs x) : ReadsAs cs y ↔ y = x := by
  constructor
  · exact fun hy => hy.unique (readsAs_of_denotes h)
  · rintro rfl
    exact readsAs_of_denotes h

end Reading

section Forms

variable {cs : List Char} {q : Rat} {x : Double}

theorem isWhole_ofNat (n : Nat) : IsWhole (ofNat n) := by
  refine ⟨Nat.toDigits_ne_nil, fun c hc => Nat.isDigit_of_mem_toDigits (by decide) (by decide) hc,
    fun hhead => ?_⟩
  by_cases hzero : n = 0
  · rw [hzero]
    rfl
  · exact absurd hhead (head_toDigits (Nat.pos_of_ne_zero hzero))

theorem ofInt_eq (n : Int) : ofInt n = minus (decide (n < 0)) ++ ofNat n.natAbs := by
  rw [ofInt, minus]
  by_cases hn : n < 0
  · simp only [hn, if_true, decide_true, List.cons_append, List.nil_append]
  · simp only [hn, if_false, decide_false, Bool.false_eq_true, List.nil_append]

/-- The characters of a number without an exponent. -/
theorem mem_unscaled {negative : Bool} {whole point fraction : List Char} (hwhole : IsWhole whole)
    (hfraction : IsFraction point fraction) :
    ∀ c ∈ minus negative ++ (whole ++ point), c = '-' ∨ isNumeric c = true := by
  have hdigit : ∀ {ds : List Char}, (∀ c ∈ ds, c.isDigit = true) →
      ∀ c ∈ ds, c = '-' ∨ isNumeric c = true :=
    fun hds c hc => .inr (by rw [isNumeric, hds c hc, Bool.true_or])
  rw [List.forall_mem_append, List.forall_mem_append]
  refine ⟨?_, hdigit hwhole.digits, ?_⟩
  · cases negative with
    | false => simp [minus]
    | true => simp [minus]
  · cases hfraction with
    | absent => simp
    | present hne hdigits => exact List.forall_mem_cons.2 ⟨.inr rfl, hdigit hdigits⟩

theorem mem_of_isInteger (h : IsInteger cs) : ∀ c ∈ cs, c = '-' ∨ c.isDigit = true := by
  rcases h with ⟨negative, whole, hwhole, rfl⟩
  rw [List.forall_mem_append]
  refine ⟨?_, fun c hc => .inr (hwhole.digits c hc)⟩
  cases negative <;> simp [minus]

/-- A numeral in scientific notation has the mark of an exponent in it. -/
theorem mem_of_isScientific (h : IsScientific cs) :
    ∃ c ∈ cs, c ≠ '-' ∧ isNumeric c = false := by
  rcases h with ⟨negative, whole, point, fraction, scale, exponent, -, -, hexponent, hne, rfl⟩
  cases hexponent with
  | absent => exact absurd rfl hne
  | @present mark sign ds hmark _ _ _ =>
      refine ⟨mark, by simp, ?_⟩
      rcases List.mem_pair.1 hmark with rfl | rfl <;> decide

/-- And a numeral with such a mark in it is in scientific notation. -/
theorem isScientific_of_mem (h : Denotes cs x) (hmem : 'e' ∈ cs) : IsScientific cs := by
  cases h with
  | @mk whole point fraction scale exponent negative hwhole hfraction hexponent =>
  refine ⟨negative, whole, point, fraction, scale, exponent, hwhole, hfraction, hexponent, ?_, rfl⟩
  rintro rfl
  rw [List.append_nil] at hmem
  rcases mem_unscaled hwhole hfraction 'e' hmem with he | he <;> cases he

end Forms

end Numeral

end Reckoner
