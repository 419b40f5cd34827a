import Mathlib
import Reckoner.Operation.Operator
import Reckoner.Proofs.Number.Rounding

/-!
# Clean Numbers

The doubles that a calculation may come to: finite ones, except for the zero
with a minus sign. Results get clean in two ways. Operators and trigonometric
functions pass through a gate, `checked`, which turns anything that is not finite
into an error and takes the sign off a zero. Roots, logarithms and negations do
not, and there the exact value decides.

A rational becomes a clean double if it is not too large, and if it is not
negative and so small that only its sign would be left. `clean_ofRat` says how
large and how small it may be.

## Main definitions

* `Double.Clean`: Finite, and not the negative zero.

## Theorems

* `clean_unsignedZero`: A finite number without the sign of a zero is clean.
* `clean_neg`: So is the opposite of a number other than zero.
* `checked_eq_ok_iff`, `checked_clean`: What passes the gate is clean.
* `ofMagnitude_eq_finite`: A moderate rational becomes a finite double.
* `clean_ofRat`: A rational of moderate size becomes a clean double.
-/

namespace Reckoner

namespace Double

/-- Finite, and not the zero that carries a minus sign. -/
def Clean (x : Double) : Prop := x.isFinite = true ∧ x ≠ negativeZero

instance (x : Double) : Decidable x.Clean := by
  unfold Clean
  infer_instance

theorem clean_finite {s : Bool} {m : Nat} {e : Int} (h : Canonical m e)
    (hsign : s = true → m ≠ 0) : (finite s m e h).Clean := by
  refine ⟨rfl, fun heq => ?_⟩
  simp only [negativeZero, finite.injEq] at heq
  exact hsign heq.1 heq.2.1

theorem clean_unsignedZero {x : Double} (h : x.isFinite = true) : x.unsignedZero.Clean := by
  cases x with
  | infinite s => cases h
  | nan => cases h
  | finite s m e hcanonical =>
      simp only [unsignedZero, isZero, beq_iff_eq]
      by_cases hm : m = 0
      · rw [if_pos hm]
        exact clean_finite _ (by rintro ⟨⟩)
      · rw [if_neg hm]
        exact clean_finite hcanonical fun _ => hm

theorem clean_neg {x : Double} (h : x.isFinite = true) (hzero : x.isZero = false) :
    (-x).Clean := by
  cases x with
  | infinite s => cases h
  | nan => cases h
  | finite s m e hcanonical =>
      simp only [isZero, beq_eq_false_iff_ne] at hzero
      exact clean_finite hcanonical fun _ => hzero

section Quantum

variable {q : Rat}

theorem quantum_of_pos (hq : 0 < q) :
    Rounding.quantum 53 (some (-1074)) q = max (Rounding.binaryOrder q - 52) (-1074) := by
  simp only [Rounding.quantum, hq.ne', false_or]
  split <;> omega

/-- In units of its last place a positive rational is no larger than the largest
    significand. It is no smaller than the least one of 53 bits, unless the unit
    is already the smallest. -/
theorem significand_bounds (hq : 0 < q) :
    q / (2 : Rat) ^ Rounding.quantum 53 (some (-1074)) q ≤ ((2 ^ 53 : Int) : Rat) ∧
      (((2 ^ 52 : Int) : Rat) ≤ q / (2 : Rat) ^ Rounding.quantum 53 (some (-1074)) q ∨
        Rounding.quantum 53 (some (-1074)) q = -1074) := by
  have hlow := Rounding.binaryOrder_le hq
  have hhigh := Rounding.lt_binaryOrder hq
  have htwo : (2 : Rat) ≠ 0 := by norm_num
  rw [quantum_of_pos hq]
  have hunit : (0 : Rat) < (2 : Rat) ^ max (Rounding.binaryOrder q - 52) (-1074) := by positivity
  rw [div_le_iff₀ hunit, le_div_iff₀ hunit]
  simp only [Int.cast_pow, Int.cast_ofNat]
  rw [← zpow_natCast, ← zpow_natCast, ← zpow_add₀ htwo, ← zpow_add₀ htwo]
  refine ⟨hhigh.le.trans (zpow_le_zpow_right₀ (by norm_num) (by push_cast; omega)), ?_⟩
  -- Small numbers all have the same unit, and fewer bits the smaller they are.
  by_cases hsubnormal : Rounding.binaryOrder q - 52 < -1074
  · exact .inr (by omega)
  · refine .inl (le_trans (le_of_eq ?_) hlow)
    congr 1
    push_cast
    omega

end Quantum

theorem signBit_ofMagnitude (s : Bool) (q : Rat) : (ofMagnitude s q).signBit = s := by
  simp only [ofMagnitude]
  split
  · rfl
  · split <;> rfl

/-- A rational below half the largest order becomes a finite double, and not a
    zero unless it is smaller than any other. -/
theorem ofMagnitude_eq_finite (s : Bool) {q : Rat} (hq : 0 ≤ q)
    (hlarge : q < (2 : Rat) ^ (1023 : Int)) :
    ∃ m e h, ofMagnitude s q = finite s m e h ∧ ((2 : Rat) ^ (-1074 : Int) ≤ q → 0 < m) := by
  rcases hq.eq_or_lt with rfl | hq
  · refine ⟨0, -1074, by decide, ?_, fun h => absurd h (by norm_num)⟩
    cases s <;> decide +kernel
  have horder := Rounding.binaryOrder_lt hq hlarge
  have hquantum := quantum_of_pos hq
  rcases significand_bounds hq with ⟨hmax, hnormal⟩
  simp only [ofMagnitude]
  generalize Rounding.quantum 53 (some (-1074)) q = e at *
  have hzero : (0 : Int) ≤ Rounding.halfEven (q / (2 : Rat) ^ e) :=
    Rounding.le_halfEven (by push_cast; positivity)
  have hmax := Rounding.halfEven_le hmax
  have hnormal : (2 : Int) ^ 52 ≤ Rounding.halfEven (q / (2 : Rat) ^ e) ∨ e = -1074 :=
    hnormal.imp_left Rounding.le_halfEven
  have hpositive : (2 : Rat) ^ (-1074 : Int) ≤ q →
      1 ≤ Rounding.halfEven (q / (2 : Rat) ^ e) := by
    intro hsmall
    rcases hnormal with h | rfl
    · exact le_trans (by norm_num) h
    · refine Rounding.le_halfEven ?_
      rw [le_div_iff₀ (by positivity)]
      simpa using hsmall
  -- How the significand came about does not matter any more, only its bounds do.
  generalize Rounding.halfEven (q / (2 : Rat) ^ e) = n at *
  have hpow : Nat.pow 2 53 = 9007199254740992 ∧ Nat.pow 2 52 = 4503599627370496 := ⟨rfl, rfl⟩
  have hpowInt : (2 : Int) ^ 53 = 9007199254740992 ∧ (2 : Int) ^ 52 = 4503599627370496 := by
    norm_num
  by_cases hcanonical : Canonical n.toNat e
  · rw [dif_pos hcanonical]
    refine ⟨_, _, hcanonical, rfl, fun hsmall => ?_⟩
    have := hpositive hsmall
    omega
  · -- The significand has been rounded up to a power of two, and there is room for its half.
    have hhalf : Canonical (n.toNat / 2) (e + 1) := by
      unfold Canonical at hcanonical ⊢
      omega
    rw [dif_neg hcanonical, dif_pos hhalf]
    refine ⟨_, _, hhalf, rfl, fun _ => ?_⟩
    unfold Canonical at hcanonical hhalf
    omega

/-- A rational that is not too large becomes a finite double. -/
theorem isFinite_ofRat {q : Rat} (h : |q| < (2 : Rat) ^ (1023 : Int)) :
    (ofRat q).isFinite = true := by
  rcases ofMagnitude_eq_finite (decide (q < 0)) (abs_nonneg q) h with ⟨m, e, hc, heq, -⟩
  rw [ofRat, Rounding.abs_eq, heq]
  rfl

/-- A rational that is not too large becomes a clean double, unless it is negative
    and smaller than any double. -/
theorem clean_ofRat {q : Rat} (hlarge : |q| < (2 : Rat) ^ (1023 : Int))
    (hsmall : 0 ≤ q ∨ q ≤ -(2 : Rat) ^ (-1074 : Int)) : (ofRat q).Clean := by
  simp only [ofRat]
  rcases hsmall with hq | hq
  · rw [abs_of_nonneg hq] at hlarge
    rw [Rat.abs_of_nonneg hq, decide_eq_false (not_lt.2 hq)]
    rcases ofMagnitude_eq_finite false hq hlarge with ⟨m, e, h, heq, -⟩
    rw [heq]
    exact clean_finite h nofun
  · have hneg : q < 0 := hq.trans_lt (neg_neg_of_pos (by positivity))
    rw [abs_of_neg hneg] at hlarge
    rw [Rat.abs_of_nonpos hneg.le, decide_eq_true hneg]
    -- The number has a sign, and enough of it is left to carry that.
    rcases ofMagnitude_eq_finite true (neg_nonneg.2 hneg.le) hlarge with ⟨m, e, h, heq, hm⟩
    rw [heq]
    exact clean_finite h fun _ => (hm (le_neg_of_le_neg hq)).ne'

end Double

/-- What passes the gate is finite, and loses the sign of a zero. -/
theorem checked_eq_ok_iff {shown : String} {x value : Double} :
    checked shown x = .ok value ↔ x.isFinite = true ∧ value = x.unsignedZero := by
  simp only [checked]
  split
  · rename_i hfinite
    simp only [Except.ok.injEq, hfinite, true_and]
    exact eq_comm
  · rename_i hfinite
    simp only [reduceCtorEq, hfinite, false_and]

/-- What passes the gate is clean. -/
theorem checked_clean {shown : String} {x value : Double} (h : checked shown x = .ok value) :
    value.Clean := by
  rcases checked_eq_ok_iff.1 h with ⟨hfinite, rfl⟩
  exact Double.clean_unsignedZero hfinite

end Reckoner
