import Mathlib
import Reckoner.Solve
import Reckoner.Proofs.Number.Nearest
import Reckoner.Proofs.Operation.Clean

/-!
# Where Operations Are Defined

An operation on finite numbers fails where mathematics has no value for it, or where the
value has no double, and not anywhere else. For an operator this is read off the exact
values of the operands: a divisor is zero, zero is raised to a negative power, a negative
number to one that is not an integer. Apart from these the result in double precision
decides. If it is finite, it is the value of the operation, and if it is not, the operation
overflows.

For functions it is the argument alone that decides, because no value of a function is too
large. Roots and logarithms are smaller than the order of their argument. A tangent is the
one function whose values are not bounded, and there it matters that an argument is read as
the decimal it is shown as. Such a decimal is a pole, or it keeps its distance from all of
them, since a number with many decimal places is close to zero and not to a pole.

## Main definitions

* `Operator.Undefined`, `Unary.Undefined`: Where there is no value.
* `Operator.Yields`: The result in double precision.
* `Operator.Overflows`, `FailsMathematically`: What the outcome is then.

## Theorems

* `Operator.calculate_of_undefined`, `Operator.calculate_of_defined`: An operator fails, or
  its result passes the gate.
* `Double.seen_pole_gap`: A decimal that is shown keeps its distance from the poles.
* `Unary.calculate_of_undefined`, `Unary.calculate_of_defined`: A function fails, or it has
  a value.
* `operations_fail_exactly`: Mathematical errors occur exactly there.
-/

namespace Reckoner

/-- The outcome is an error about mathematics. -/
def FailsMathematically (outcome : Except Failure Double) : Prop :=
  ∃ e, outcome = .error (.rejection (.math e))

namespace Operator

/-- The operation has no value for numbers with these exact values: a division by zero, a
    negative power of zero, and a power of a negative number that is not integral. -/
def Undefined (op : Operator) (a b : Rat) : Prop :=
  match op with
  | .divide => b = 0
  | .power => a = 0 ∧ b < 0 ∨ a < 0 ∧ ∀ n : Int, b ≠ n
  | _ => False

/-- The result in double precision: the exact one, rounded once, and for a power what the
    machine comes to. -/
def Yields (op : Operator) (left right : Double) (a b : Rat) (result : Double) : Prop :=
  match op with
  | .add => Double.IsRounded (a + b) result
  | .subtract => Double.IsRounded (a - b) result
  | .multiply => Double.IsRounded (a * b) result
  | .divide => Double.IsRounded (a / b) result
  | .power => result = left.machinePower right

section Operands

variable {op : Operator} {left right result result' : Double} {a b : Rat}

/-- There is one result, up to the sign of a zero. -/
theorem Yields.unique (h : op.Yields left right a b result)
    (h' : op.Yields left right a b result') : result.unsignedZero = result'.unsignedZero := by
  cases op with
  | power =>
      simp only [Yields] at h h'
      rw [h, h']
  | add | subtract | multiply | divide => exact Double.IsRounded.unique h h'

theorem calculate_of_undefined (hleft : left.toRat? = some a) (hright : right.toRat? = some b)
    (h : op.Undefined a b) : ∃ e, op.calculate left right = .error e := by
  cases op with
  | add | subtract | multiply => cases h
  | divide =>
      simp only [calculate, (Double.isZero_iff hright).2 h, if_true]
      exact ⟨_, rfl⟩
  | power =>
      have hl := Double.isFinite_of_toRat? hleft
      have hr := Double.isFinite_of_toRat? hright
      -- Whatever the machine objects to in a power, it is reported as a mathematical error.
      suffices hpower : ∃ e, left.power right = .error e by
        rcases hpower with ⟨e, he⟩
        simp only [calculate, he]
        cases e <;> exact ⟨_, rfl⟩
      simp only [Double.power, hl, hr, Bool.and_self, Bool.not_true, Bool.false_eq_true, if_false]
      rcases h with ⟨hzero, hneg⟩ | ⟨hneg, hint⟩
      · rw [(Double.isZero_iff hleft).2 hzero, (Double.isNegative_iff hright).2 hneg]
        exact ⟨_, rfl⟩
      · -- The checks come in order, and a negative base has passed the first.
        have hbase : left.isZero = false := by
          rw [Bool.eq_false_iff, ne_eq, Double.isZero_iff hleft]
          exact hneg.ne
        have hnone : right.integer? = none := by
          refine Option.eq_none_iff_forall_ne_some.2 fun n hn => ?_
          exact hint n ((Double.integer?_eq_some_iff hright).1 hn)
        simp only [hbase, (Double.isNegative_iff hleft).2 hneg, hnone, Option.isNone_none,
          Bool.false_and, Bool.and_self, Bool.false_eq_true, if_false, if_true]
        split <;> exact ⟨_, rfl⟩

/-- Where an operator is defined, its result passes the gate or is too large for it. -/
theorem calculate_of_defined (hleft : left.toRat? = some a) (hright : right.toRat? = some b)
    (h : ¬ op.Undefined a b) : ∃ result, op.Yields left right a b result ∧
      op.calculate left right = checked (op.calculation left right) result := by
  cases op with
  | add => exact ⟨_, Double.isRounded_add hleft hright, rfl⟩
  | subtract => exact ⟨_, Double.isRounded_sub hleft hright, rfl⟩
  | multiply => exact ⟨_, Double.isRounded_mul hleft hright, rfl⟩
  | divide =>
      refine ⟨_, Double.isRounded_div hleft hright h, ?_⟩
      rw [Undefined, ← Double.isZero_iff hright, Bool.not_eq_true] at h
      simp only [calculate, h, Bool.false_eq_true, if_false]
  | power =>
      have hl := Double.isFinite_of_toRat? hleft
      have hr := Double.isFinite_of_toRat? hright
      simp only [Undefined, not_or] at h
      have hzero : (left.isZero && right.isNegative) = false := by
        rw [Bool.eq_false_iff, ne_eq, Bool.and_eq_true, Double.isZero_iff hleft,
          Double.isNegative_iff hright]
        exact h.1
      have hreal : (left.isNegative && right.integer?.isNone) = false := by
        rw [Bool.eq_false_iff, ne_eq, Bool.and_eq_true, Double.isNegative_iff hleft,
          Option.isNone_iff_eq_none, Option.eq_none_iff_forall_ne_some]
        rintro ⟨hneg, hnone⟩
        exact h.2 ⟨hneg, fun n hn => hnone n ((Double.integer?_eq_some_iff hright).2 hn)⟩
      refine ⟨_, rfl, ?_⟩
      simp only [calculate, Double.power, hl, hr, hzero, hreal, Bool.and_self, Bool.not_true,
        Bool.false_eq_true, if_false, checked]
      by_cases hfinite : (left.machinePower right).isFinite = true
      · simp only [hfinite, if_true]
      · simp only [hfinite, Bool.false_eq_true, if_false]

end Operands

/-- The operation is defined, but its result is not finite. -/
def Overflows (op : Operator) (left right : Double) (a b : Rat) : Prop :=
  ∃ result, op.Yields left right a b result ∧ result.isFinite = false

end Operator

section Outcomes

variable {op : Operator} {left right : Double} {a b : Rat}

theorem applyOperator_symbol (op : Operator) (left right : Double) :
    applyOperator op.symbol left right =
      (op.calculate left right).mapError fun e => .rejection (.math e) := by
  rw [applyOperator, Operator.ofSymbol?_symbol]

/-- An operator has a value if it is defined and its result is finite, and the value is the
    result without the sign of a zero. -/
theorem applyOperator_eq_ok_iff (hleft : left.toRat? = some a) (hright : right.toRat? = some b)
    {value : Double} : applyOperator op.symbol left right = .ok value ↔
      ¬ op.Undefined a b ∧ ∃ result, op.Yields left right a b result ∧
        result.isFinite = true ∧ value = result.unsignedZero := by
  rw [applyOperator_symbol, mapError_eq_ok_iff]
  by_cases hdefined : op.Undefined a b
  · rcases Operator.calculate_of_undefined hleft hright hdefined with ⟨e, he⟩
    simp only [he, reduceCtorEq, hdefined, not_true_eq_false, false_and]
  · rcases Operator.calculate_of_defined hleft hright hdefined with ⟨result, hyields, hresult⟩
    rw [hresult, checked_eq_ok_iff]
    constructor
    · rintro ⟨hfinite, rfl⟩
      exact ⟨hdefined, result, hyields, hfinite, rfl⟩
    · rintro ⟨-, result', hyields', hfinite, rfl⟩
      have hsame := hyields.unique hyields'
      rw [← Double.isFinite_unsignedZero, ← hsame, Double.isFinite_unsignedZero] at hfinite
      exact ⟨hfinite, hsame.symm⟩

/-- An operator fails if it is not defined, or if its result is not finite. -/
theorem applyOperator_fails_iff (hleft : left.toRat? = some a) (hright : right.toRat? = some b) :
    FailsMathematically (applyOperator op.symbol left right) ↔
      op.Undefined a b ∨ op.Overflows left right a b := by
  -- There is no third outcome, so failing is having no value.
  have hfails : FailsMathematically (applyOperator op.symbol left right) ↔
      ∀ value, applyOperator op.symbol left right ≠ .ok value := by
    rw [applyOperator_symbol, FailsMathematically]
    cases op.calculate left right with
    | error e => exact ⟨fun _ _ => (by rintro ⟨⟩), fun _ => ⟨e, rfl⟩⟩
    | ok value => exact ⟨by rintro ⟨e, ⟨⟩⟩, fun h => absurd rfl (h value)⟩
  simp only [hfails, ne_eq, applyOperator_eq_ok_iff hleft hright]
  by_cases hdefined : op.Undefined a b
  · simp only [hdefined, not_true_eq_false, false_and, not_false_eq_true, implies_true, true_or]
  · rcases Operator.calculate_of_defined hleft hright hdefined with ⟨result, hyields, -⟩
    simp only [hdefined, not_false_eq_true, true_and, false_or, Operator.Overflows]
    constructor
    · intro h
      refine ⟨result, hyields, ?_⟩
      rw [← Bool.not_eq_true]
      exact fun hfinite => h _ ⟨result, hyields, hfinite, rfl⟩
    · rintro ⟨large, hlarge, hinfinite⟩ value ⟨result', hyields', hfinite, -⟩
      rw [← Double.isFinite_unsignedZero, hlarge.unique hyields', Double.isFinite_unsignedZero,
        hfinite] at hinfinite
      cases hinfinite

/-- An operator has a value, or it fails for a mathematical reason. -/
theorem applyOperator_settles (op : Operator) (left right : Double) :
    (∃ value, applyOperator op.symbol left right = .ok value) ∨
      FailsMathematically (applyOperator op.symbol left right) := by
  rw [applyOperator_symbol]
  cases op.calculate left right with
  | error e => exact .inr ⟨e, rfl⟩
  | ok value => exact .inl ⟨value, rfl⟩

end Outcomes

namespace Double

/-- The decimal that a number is shown as is a pole, or it is not close to one. -/
theorem seen_pole_gap {x : Double} {q : Rat} (hq : x.seen? = some q) {n : Int} (hn : Odd n)
    (hne : q ≠ 90 * n) : ((10 : Rat) ^ 55)⁻¹ ≤ |q - 90 * n| := by
  have hunit : (0 : Rat) < (10 : Rat) ^ 55 := by positivity
  by_cases hhalf : |q| < 1 / 2
  · -- Close to zero all poles are far away.
    have hodd : (1 : Rat) ≤ |(n : Rat)| := by
      have : 1 ≤ |n| := by
        rcases hn with ⟨k, rfl⟩
        exact Int.one_le_abs (by omega)
      exact_mod_cast this
    have hpole : (90 : Rat) ≤ |90 * (n : Rat)| := by
      rw [abs_mul, abs_of_pos (by norm_num : (0 : Rat) < 90)]
      linarith
    have hfar := abs_sub_abs_le_abs_sub (90 * (n : Rat)) q
    rw [abs_sub_comm] at hfar
    have : ((10 : Rat) ^ 55)⁻¹ ≤ 1 := by norm_num
    linarith
  · -- In units of the last place both are integers.
    suffices hcount : ∃ k : Int, q * (10 : Rat) ^ 55 = k by
      rcases hcount with ⟨k, hk⟩
      have hapart : (q - 90 * n) * (10 : Rat) ^ 55 = ((k - 90 * n * 10 ^ 55 : Int) : Rat) := by
        rw [sub_mul, hk]
        norm_num
      have hdifferent : k - 90 * n * 10 ^ 55 ≠ 0 := by
        intro hzero
        rw [hzero, Int.cast_zero] at hapart
        exact hne (sub_eq_zero.1 ((mul_eq_zero.1 hapart).resolve_right hunit.ne'))
      have hone : (1 : Rat) ≤ |((k - 90 * n * 10 ^ 55 : Int) : Rat)| := by
        exact_mod_cast Int.one_le_abs hdifferent
      have hcounted : |q - 90 * n| * (10 : Rat) ^ 55 = |(q - 90 * n) * (10 : Rat) ^ 55| := by
        rw [abs_mul, abs_of_pos hunit]
      rw [inv_le_iff_one_le_mul₀ hunit, hcounted, hapart]
      exact hone
    rw [not_lt] at hhalf
    cases x with
    | infinite s => cases hq
    | nan => cases hq
    | finite s m e hc =>
        rcases Nat.eq_zero_or_pos m with rfl | hm
        · rw [seen?_zero] at hq
          cases hq
          exact ⟨0, by norm_num⟩
        rcases seen?_eq_some hm hq with ⟨d, hnear, rfl⟩
        rw [abs_signed, abs_of_nonneg d.toRat_nonneg] at hhalf
        rcases Decimal.exists_toRat_mul_pow (k := 55) (exponent_of_half_le hc hnear hhalf) with
          ⟨k, hk⟩
        cases s with
        | false => exact ⟨k, by exact_mod_cast hk⟩
        | true =>
            refine ⟨-k, ?_⟩
            simp only [signed, if_true, neg_mul, hk, Int.cast_neg, Int.cast_natCast]

end Double

namespace Unary

/-- The function has no value for a number with this exact value. For a tangent it is not
    that value that counts, but the decimal that the number is shown as. -/
def Undefined (f : Unary) (x : Double) (a : Rat) : Prop :=
  match f with
  | .squareRoot => a < 0
  | .decimalLog | .naturalLog => a ≤ 0
  | .tangent => ∃ q, x.seen? = some q ∧ Elementary.IsPole q
  | .negate | .sine | .cosine => False

section Arguments

variable {library : Numerics} {f : Unary} {x : Double} {a q : Rat}

theorem calculate_of_undefined (h : library.Faithful) (hx : x.toRat? = some a)
    (hundefined : f.Undefined x a) : ∃ e, f.calculate x = .error (.math e) := by
  cases f with
  | negate | sine | cosine => cases hundefined
  | squareRoot =>
      simp only [calculate, (Double.isNegative_iff hx).2 hundefined, if_true]
      exact ⟨_, rfl⟩
  | decimalLog | naturalLog =>
      have hdomain : (x.isNegative || x.isZero) = true := by
        rw [Bool.or_eq_true, Double.isNegative_iff hx, Double.isZero_iff hx]
        exact lt_or_eq_of_le hundefined
      simp only [calculate, hdomain, if_true]
      exact ⟨_, rfl⟩
  | tangent =>
      rcases hundefined with ⟨q, hq, hpole⟩
      simp only [calculate, calculateSeen, hq, h.pole q hpole]
      exact ⟨_, rfl⟩

/-- A trigonometric function has a value where its exact value is not too large: the double
    it is rounded to, without the sign of a zero. -/
theorem calculate_of_value {value : Rat} (hf : f.isTrigonometric = true) (hq : x.seen? = some q)
    (hvalue : library.value? f q = some value) (hsize : |value| < (2 : Rat) ^ (1023 : Int)) :
    f.calculate x = .ok (Double.ofRat value).unsignedZero := by
  have hgate : checked (f.calculation x) (Double.ofRat value) =
      .ok (Double.ofRat value).unsignedZero :=
    checked_eq_ok_iff.2 ⟨Double.isFinite_ofRat hsize, rfl⟩
  cases f with
  | negate | squareRoot | decimalLog | naturalLog => cases hf
  | sine | cosine | tangent =>
      simp only [calculate, calculateSeen_of_value hq hvalue, hgate]
      rfl

/-- The distance from the poles keeps the tangent far below the largest number. -/
theorem abs_tan_le (hq : x.seen? = some q) (hpole : ¬ Elementary.IsPole q) :
    |Real.tan (Elementary.radians q)| ≤ (2 : ℝ) ^ (200 : Int) := by
  refine (Elementary.abs_tan_le (by positivity : 0 < ((10 : Rat) ^ 55)⁻¹) fun n hn =>
    Double.seen_pole_gap hq hn fun heq => hpole ⟨n, hn, heq⟩).trans ?_
  norm_num

/-- Where a function is defined, its value is never too large. -/
theorem calculate_of_defined (h : library.Faithful) (hx : x.toRat? = some a)
    (hdefined : ¬ f.Undefined x a) : ∃ value, f.calculate x = .ok value := by
  have hfinite := Double.isFinite_of_toRat? hx
  rcases Double.seen?_of_isFinite hfinite with ⟨q, hq⟩
  -- Without a check there is the value itself, and a check is passed by what is not too large.
  have hchecked : ∀ {g : Unary}, g.isTrigonometric = true → library.Accurate g → g.HasReal q →
      |g.real q| ≤ (2 : ℝ) ^ (200 : Int) → ∃ value, g.calculate x = .ok value := by
    intro g hg haccurate hreal hsize
    rcases haccurate q hreal with ⟨v, hv, hnear⟩
    exact ⟨_, calculate_of_value hg hq hv (hnear.abs_lt (by norm_num) hsize)⟩
  have hone : ∀ r : ℝ, |r| ≤ 1 → |r| ≤ (2 : ℝ) ^ (200 : Int) := fun r hr =>
    hr.trans (one_le_zpow₀ (by norm_num) (by norm_num))
  cases f with
  | negate => exact ⟨_, rfl⟩
  | squareRoot =>
      rw [Undefined, ← Double.isNegative_iff hx, Bool.not_eq_true] at hdefined
      rcases calculateSeen_clean h.toReliable rfl (by decide) hfinite hdefined fun _ => rfl with
        ⟨value, hvalue, -⟩
      exact ⟨value, by simp only [calculate, hdefined, Bool.false_eq_true, if_false, hvalue]⟩
  | decimalLog | naturalLog =>
      rw [Undefined, le_iff_lt_or_eq, ← Double.isNegative_iff hx, ← Double.isZero_iff hx, not_or,
        Bool.not_eq_true, Bool.not_eq_true] at hdefined
      have hseen : ∀ {g : Unary}, g.isTrigonometric = false → g ≠ .negate →
          ∃ value, g.calculateSeen x = .ok value := by
        intro g hg hne
        rcases calculateSeen_clean h.toReliable hg hne hfinite hdefined.1
          (fun hzero => by simp [hdefined.2] at hzero) with ⟨value, hvalue, -⟩
        exact ⟨value, hvalue⟩
      simp only [calculate, hdefined, Bool.or_self, Bool.false_eq_true, if_false]
      exact hseen rfl (by decide)
  | sine => exact hchecked rfl h.sine trivial (hone _ (Real.abs_sin_le_one _))
  | cosine => exact hchecked rfl h.cosine trivial (hone _ (Real.abs_cos_le_one _))
  | tangent =>
      have hpole : ¬ Elementary.IsPole q := fun hpole => hdefined ⟨q, hq, hpole⟩
      exact hchecked rfl h.tangent hpole (abs_tan_le hq hpole)

end Arguments

end Unary

section Functions

variable {library : Numerics} {f : Unary} {x : Double} {a : Rat}

/-- A function has a value or fails for a mathematical reason, which depends on whether it
    is defined. -/
theorem applyFunction_settles (h : library.Faithful) (hx : x.toRat? = some a) :
    (f.Undefined x a ∧ FailsMathematically (applyFunction f.name x)) ∨
      ¬ f.Undefined x a ∧ ∃ value, applyFunction f.name x = .ok value := by
  by_cases hdefined : f.Undefined x a
  · rcases Unary.calculate_of_undefined h hx hdefined with ⟨e, he⟩
    exact .inl ⟨hdefined, e, by simp only [applyFunction, Unary.ofName?_name, he]⟩
  · rcases Unary.calculate_of_defined h hx hdefined with ⟨value, hvalue⟩
    exact .inr ⟨hdefined, value, by simp only [applyFunction, Unary.ofName?_name, hvalue]⟩

/-- A function fails only where it is not defined. -/
theorem applyFunction_fails_iff (h : library.Faithful) (hx : x.toRat? = some a) :
    FailsMathematically (applyFunction f.name x) ↔ f.Undefined x a := by
  rcases applyFunction_settles (f := f) h hx with
    ⟨hdefined, hfails⟩ | ⟨hdefined, value, hvalue⟩
  · exact ⟨fun _ => hdefined, fun _ => hfails⟩
  · refine ⟨?_, fun h => absurd h hdefined⟩
    rintro ⟨e, he⟩
    cases he.symm.trans hvalue

end Functions

/-- With a library that is accurate, mathematical errors occur exactly where an operation on
    finite numbers is undefined or overflows, and no other errors do. Where an operator does not
    fail, its value is the result in double precision without the sign of a zero. -/
theorem operations_fail_exactly {library : Numerics} (h : library.Faithful) {x y : Double}
    {a b : Rat} (hx : x.toRat? = some a) (hy : y.toRat? = some b) :
    (∀ op : Operator,
      (FailsMathematically (applyOperator op.symbol x y) ↔
        op.Undefined a b ∨ op.Overflows x y a b) ∧
      ((∃ value, applyOperator op.symbol x y = .ok value) ∨
        FailsMathematically (applyOperator op.symbol x y)) ∧
      ∀ value, applyOperator op.symbol x y = .ok value ↔
        ¬ op.Undefined a b ∧ ∃ result, op.Yields x y a b result ∧
          result.isFinite = true ∧ value = result.unsignedZero) ∧
    ∀ f : Unary,
      (FailsMathematically (applyFunction f.name x) ↔ f.Undefined x a) ∧
      ((∃ value, applyFunction f.name x = .ok value) ∨
        FailsMathematically (applyFunction f.name x)) := by
  refine ⟨fun op => ⟨applyOperator_fails_iff hx hy, applyOperator_settles op x y,
    fun value => applyOperator_eq_ok_iff hx hy⟩, fun f => ⟨applyFunction_fails_iff h hx, ?_⟩⟩
  rcases applyFunction_settles (f := f) h hx with ⟨-, hfails⟩ | ⟨-, hvalue⟩
  · exact .inr hfails
  · exact .inl hvalue

/-- A square root of a negative number is not a power of it, and there is no tangent at a
    negative pole. -/
theorem operations_fail_exactly_negative :
    FailsMathematically (applyOperator "^" (Double.ofRat (-270)) (Double.ofRat (1 / 2))) ∧
      FailsMathematically (applyFunction "tan" (Double.ofRat (-270))) := by
  have hx : (Double.ofRat (-270)).toRat? = some (-270) := by decide +kernel
  have hy : (Double.ofRat (1 / 2)).toRat? = some (1 / 2) := by decide +kernel
  have hseen : (Double.ofRat (-270)).seen? = some (-270) := by decide +kernel
  rcases operations_fail_exactly Numerics.reference_faithful hx hy with ⟨hoperators, hfunctions⟩
  constructor
  · refine (hoperators .power).1.2 (.inl (.inr ⟨by norm_num, fun n hn => ?_⟩))
    have htwice : (1 : Rat) = ((2 * n : Int) : Rat) := by
      push_cast
      linarith
    have := Int.cast_injective ((Int.cast_one (R := Rat)).trans htwice)
    omega
  · exact (hfunctions .tangent).1.2 ⟨-270, hseen, -3, by decide, by norm_num⟩

end Reckoner
