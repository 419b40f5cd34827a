import Mathlib
import Reckoner.Operation.Unary
import Reckoner.Proofs.Number.Clean
import Reckoner.Proofs.Operation.Numerics

/-!
# Operations Come to Clean Numbers

An operation on finite numbers has a clean value or is undefined. For operators
and trigonometric functions the gate sees to that, whatever the operands are. A
root is not negative and is smaller than its radicand's order. A logarithm can be
negative, and then it is never so small that its sign would be all that is left
of it: the argument is a decimal of a double, and such a decimal is one or keeps
its distance from one.

Negation has no gate either. It takes the sign off a zero, and any other finite
number has a clean opposite, so a negative zero among the operands does no harm.

## Theorems

* `Operator.calculate_clean`: Operators have clean values.
* `Unary.calculateSeen_clean`: So have roots and logarithms inside their domains.
* `Unary.calculate_settles`: A function of a finite number has a clean value, or
  is undefined.
-/

namespace Reckoner

/-- Whatever the operands are, the value of an operator is clean. -/
theorem Operator.calculate_clean {op : Operator} {left right value : Double}
    (h : op.calculate left right = .ok value) : value.Clean := by
  cases op with
  | add => exact checked_clean h
  | subtract => exact checked_clean h
  | multiply => exact checked_clean h
  | divide =>
      simp only [calculate] at h
      split at h
      · cases h
      · exact checked_clean h
  | power =>
      simp only [calculate] at h
      split at h
      · exact checked_clean h
      all_goals cases h

/-- Every finite number is shown as some decimal. -/
theorem Double.seen?_of_isFinite {x : Double} (h : x.isFinite = true) :
    ∃ q, x.seen? = some q := by
  cases x with
  | finite s m e hcanonical => exact ⟨_, rfl⟩
  | infinite s => cases h
  | nan => cases h

/-- A finite number that is not negative is shown as zero or as a moderate
    rational. -/
theorem Double.seen_of_not_isNegative {x : Double} {q : Rat} (hfinite : x.isFinite = true)
    (hsign : x.isNegative = false) (hq : x.seen? = some q) :
    x.isZero = true ∧ q = 0 ∨ Moderate q := by
  cases x with
  | infinite s => cases hfinite
  | nan => cases hfinite
  | finite s m e hcanonical =>
      rcases Nat.eq_zero_or_pos m with rfl | hm
      · rw [Double.seen?_zero] at hq
        cases hq
        exact .inl ⟨rfl, rfl⟩
      · have hs : s = false := by simpa [Double.isNegative, hm.ne'] using hsign
        subst hs
        exact .inr (Double.seen_moderate hm hq)

namespace Unary

section Values

variable {v q : Rat} {r : ℝ}

/-- What is close to a real number of moderate size becomes a clean double. -/
theorem clean_of_near (h : Near v r) (hsize : |r| ≤ (2 : ℝ) ^ (1000 : Int))
    (hsign : 0 ≤ r ∨ r ≤ -(2 : ℝ) ^ (-1000 : Int)) : (Double.ofRat v).Clean := by
  refine Double.clean_ofRat (h.abs_lt (by norm_num) hsize)
    (hsign.imp (fun hnonneg => ?_) fun hneg => ?_)
  · have hreal : (0 : ℝ) ≤ v := le_trans (by linarith) (h.half_le hnonneg)
    exact_mod_cast hreal
  · have hreal : (v : ℝ) ≤ -(2 : ℝ) ^ (-1074 : Int) :=
      calc (v : ℝ) ≤ r / 2 := h.le_half (hneg.trans (neg_nonpos.2 (by positivity)))
        _ ≤ -(2 : ℝ) ^ (-1000 : Int) / 2 := by linarith
        _ = -(2 : ℝ) ^ (-1000 - 1 : Int) := by rw [zpow_sub_one₀ two_ne_zero]; ring
        _ ≤ -(2 : ℝ) ^ (-1074 : Int) :=
          neg_le_neg (zpow_le_zpow_right₀ (by norm_num) (by norm_num))
    rwa [← Rat.cast_le (K := ℝ), Rat.cast_neg, Rat.cast_zpow, Rat.cast_ofNat]

/-- The root of a moderate rational is moderate. -/
theorem sqrt_size (h : q = 0 ∨ Moderate q) : |√(q : ℝ)| ≤ (2 : ℝ) ^ (1000 : Int) := by
  rw [abs_of_nonneg (Real.sqrt_nonneg _)]
  rcases h with rfl | h
  · rw [Rat.cast_zero, Real.sqrt_zero]
    positivity
  · refine Real.sqrt_le_iff.2 ⟨by positivity, ?_⟩
    have hrat : q ≤ ((2 : Rat) ^ (1000 : Int)) ^ 2 := by
      rw [← zpow_natCast, ← zpow_mul]
      exact h.high.le.trans (zpow_le_zpow_right₀ (by norm_num) (by norm_num))
    exact_mod_cast hrat

/-- The logarithm of a moderate rational is not large, and if it is negative, it is not small
    either: the rational is not close to one from below. -/
theorem log_size (h : Moderate q) : |Real.log q| ≤ 4296 ∧
    (0 ≤ Real.log q ∨ Real.log q ≤ -((10 : ℝ) ^ 55)⁻¹) := by
  have hq : 0 < q := lt_of_lt_of_le (by positivity) h.low
  have hreal : (0 : ℝ) < q := by exact_mod_cast hq
  have hlow := (Rat.cast_le (K := ℝ)).2 h.low
  have hhigh := (Rat.cast_le (K := ℝ)).2 h.high.le
  rw [Rat.cast_zpow, Rat.cast_ofNat] at hlow hhigh
  have htwo : 0 < Real.log 2 ∧ Real.log 2 < 1 :=
    ⟨Real.log_pos (by norm_num), Real.log_two_lt_d9.trans (by norm_num)⟩
  constructor
  · have hbelow := Real.log_le_log (by positivity) hlow
    have habove := Real.log_le_log hreal hhigh
    rw [Real.log_zpow] at hbelow habove
    push_cast at hbelow habove
    rw [abs_le]
    constructor <;> linarith
  · by_cases hone : q < 1
    · have hapart := (Rat.cast_le (K := ℝ)).2 (h.apart hone)
      push_cast at hapart
      exact .inr (by linarith [Real.log_le_sub_one_of_pos hreal])
    · exact .inl (Real.log_nonneg (by exact_mod_cast not_lt.1 hone))

/-- A value that is close to a logarithm, or to some part of one, becomes a clean double. -/
theorem log_clean {c : ℝ} (hone : 1 ≤ c) (hthree : c ≤ 3) (h : Moderate q)
    (hnear : Near v (Real.log q / c)) : (Double.ofRat v).Clean := by
  have hc : 0 < c := by linarith
  rcases log_size h with ⟨hsize, hsign⟩
  refine clean_of_near hnear ?_ (hsign.imp (div_nonneg · hc.le) fun hneg => ?_)
  · rw [abs_div, abs_of_pos hc]
    refine (div_le_self (abs_nonneg _) hone).trans (hsize.trans ?_)
    calc (4296 : ℝ) ≤ (2 : ℝ) ^ (13 : Int) := by norm_num
      _ ≤ (2 : ℝ) ^ (1000 : Int) := zpow_le_zpow_right₀ (by norm_num) (by norm_num)
  · calc Real.log q / c ≤ -((10 : ℝ) ^ 55)⁻¹ / c := div_le_div_of_nonneg_right hneg hc.le
      _ ≤ -((10 : ℝ) ^ 55)⁻¹ / 3 := by
        rw [neg_div, neg_div]
        exact neg_le_neg (div_le_div_of_nonneg_left (by positivity) hc hthree)
      _ ≤ -(2 : ℝ) ^ (-200 : Int) := by norm_num
      _ ≤ -(2 : ℝ) ^ (-1000 : Int) :=
        neg_le_neg (zpow_le_zpow_right₀ (by norm_num) (by norm_num))

end Values

section Functions

variable {library : Numerics}

/-- A value of the library becomes the value of the function. -/
theorem calculateSeen_of_value {f : Unary} {x : Double} {q v : Rat} (hq : x.seen? = some q)
    (hv : library.value? f q = some v) : f.calculateSeen x = .ok (Double.ofRat v) := by
  simp only [calculateSeen, hq, hv]

/-- Inside its domain a function that does not check its value has a clean one. -/
theorem calculateSeen_clean (h : library.Reliable) {f : Unary} {x : Double}
    (hf : f.isTrigonometric = false) (hne : f ≠ .negate) (hfinite : x.isFinite = true)
    (hsign : x.isNegative = false) (hzero : x.isZero = true → f = .squareRoot) :
    ∃ value, f.calculateSeen x = .ok value ∧ value.Clean := by
  rcases Double.seen?_of_isFinite hfinite with ⟨q, hq⟩
  have hseen := Double.seen_of_not_isNegative hfinite hsign hq
  -- Only the root is defined at zero.
  have hmoderate : f ≠ .squareRoot → Moderate q := fun hf =>
    hseen.resolve_left fun hz => hf (hzero hz.1)
  have hpositive : Moderate q → 0 < q := fun h => lt_of_lt_of_le (by positivity) h.low
  cases f with
  | squareRoot =>
      have hradicand := hseen.imp_left And.right
      rcases h.squareRoot q (hradicand.elim (fun hq => hq.ge) fun h => (hpositive h).le) with
        ⟨v, hv, hnear⟩
      exact ⟨_, calculateSeen_of_value hq hv,
        clean_of_near hnear (sqrt_size hradicand) (.inl (Real.sqrt_nonneg _))⟩
  | naturalLog =>
      have hargument := hmoderate (by decide)
      rcases h.naturalLog q (hpositive hargument) with ⟨v, hv, hnear⟩
      refine ⟨_, calculateSeen_of_value hq hv, log_clean le_rfl (by norm_num) hargument ?_⟩
      rwa [div_one]
  | decimalLog =>
      have hargument := hmoderate (by decide)
      rcases Elementary.log_ten_bounds with ⟨hone, hthree⟩
      rcases h.decimalLog q (hpositive hargument) with ⟨v, hv, hnear⟩
      exact ⟨_, calculateSeen_of_value hq hv, log_clean hone hthree hargument hnear⟩
  | negate => exact absurd rfl hne
  | sine | cosine | tangent => cases hf

/-- A function of a finite number has a clean value, or it is undefined there. -/
theorem calculate_settles (h : library.Reliable) {f : Unary} {x : Double}
    (hx : x.isFinite = true) :
    (∃ value, f.calculate x = .ok value ∧ value.Clean) ∨
      ∃ e, f.calculate x = .error (.math e) := by
  cases f with
  | negate =>
      refine .inl ⟨_, rfl, ?_⟩
      split
      · exact Double.clean_finite _ nofun
      · rename_i hzero
        exact Double.clean_neg hx (by simpa using hzero)
  | squareRoot =>
      simp only [calculate]
      split
      · exact .inr ⟨_, rfl⟩
      · rename_i hsign
        exact .inl (calculateSeen_clean h rfl (by decide) hx (by simpa using hsign) fun _ => rfl)
  | decimalLog | naturalLog =>
      simp only [calculate]
      split
      · exact .inr ⟨_, rfl⟩
      · rename_i hdomain
        simp only [Bool.or_eq_true, not_or, Bool.not_eq_true] at hdomain
        refine .inl (calculateSeen_clean h rfl (by decide) hx hdomain.1 fun hzero => ?_)
        rw [hdomain.2] at hzero
        cases hzero
  | sine | cosine | tangent =>
      rcases Double.seen?_of_isFinite hx with ⟨q, hq⟩
      simp only [calculate, calculateSeen, hq]
      -- The value is looked at twice: there may be none, and it may not pass the gate.
      split
      · rename_i e he
        split at he
        · cases he
          exact .inr ⟨_, rfl⟩
        · cases he
      · rename_i value _
        cases hchecked : checked _ value with
        | error e => exact .inr ⟨e, rfl⟩
        | ok result => exact .inl ⟨result, rfl, checked_clean hchecked⟩

end Functions

end Unary

end Reckoner
