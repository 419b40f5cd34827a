import Mathlib
import Reckoner.Evaluation
import Reckoner.Proofs.Operation.Clean

/-!
# Evaluation without Faults

The trees that can be evaluated by mathematics alone. A tree is proper when its
operators and functions exist and its numbers are finite. Every operation on
finite numbers has a finite value or is undefined, so nothing but a mathematical
error or the number of decimal places can keep a proper tree from a finite value.

The number of decimal places matters only when the step of a named function is
written, and there it is at fault only outside the range that the formatter
accepts (`Blames`).

## Main definitions

* `Expr.Proper`: The operators and functions exist, the numbers are finite.
* `Expr.calls`: Whether a named function is applied somewhere.
* `PlacesFault.Blames`: The numbers of decimal places that a fault is about.
* `Expr.Settles`: A finite value, a mathematical error, or bad decimal places.

## Theorems

* `fixedNumeral_eq_error_iff`: When a numeral cannot be written.
* `settles_of_proper`: Proper trees settle.
-/

namespace Reckoner

/-- The numbers of decimal places that a fault is about. -/
def PlacesFault.Blames (places : Int) : PlacesFault → Prop
  | .negative => places < 0
  | .tooMany => maxHalfWord < places ∧ places ≤ maxWord
  | .unreadable => maxWord < places

/-- A numeral fails for the number of decimal places and for nothing else. -/
theorem fixedNumeral_eq_error_iff {x : Double} {places : Int} {fault : PlacesFault} :
    fixedNumeral x places = .error fault ↔ fault.Blames places := by
  have hword : maxWord = 9223372036854775807 := rfl
  have hhalf : maxHalfWord = 2147483647 := rfl
  simp only [fixedNumeral]
  split
  · cases fault <;> simp [PlacesFault.Blames] <;> omega
  · split
    · cases fault <;> simp [PlacesFault.Blames] <;> omega
    · split <;> cases fault <;> simp [PlacesFault.Blames] <;> omega

/-- Only the step of a named function can fail, and only for its decimal places. -/
theorem Step.ofUnary_eq_error_iff {places : Int} {f : Unary} {x value : Double}
    {fault : PlacesFault} :
    Step.ofUnary places f x value = .error fault ↔ f ≠ .negate ∧ fault.Blames places := by
  simp only [Step.ofUnary]
  split
  · simp
  · rename_i hne
    rw [← fixedNumeral_eq_error_iff (x := value)]
    cases fixedNumeral value places with
    | ok numeral => simp [Except.map]
    | error e => simpa [Except.map] using fun _ => hne

namespace Expr

/-- The operators and functions of a tree exist, and its numbers are finite. -/
inductive Proper : Expr → Prop
  | literal {value : Double} (hfinite : value.isFinite = true) : Proper (.literal (some value))
  | binary {symbol : String} {op : Operator} {left right : Expr} {grouped : Bool}
      (hop : Operator.ofSymbol? symbol = some op) (hleft : Proper left) (hright : Proper right) :
      Proper (.binary symbol left right grouped)
  | apply {name : String} {f : Unary} {argument : Expr} (hf : Unary.ofName? name = some f)
      (hargument : Proper argument) : Proper (.apply name argument)

/-- Whether a named function is applied somewhere in a tree. -/
def calls : Expr → Bool
  | .literal _ => false
  | .binary _ left right _ => left.calls || right.calls
  | .apply name argument => name != Unary.negate.name || argument.calls
  | .foreign _ => false

/-- What can become of a tree without a fault of its own: a finite value, a
    mathematical error, or a step of a named function that cannot be written with
    so many decimal places. -/
inductive Settles (places : Int) (tree : Expr) : Except EvaluationError Evaluation → Prop
  | value {result : Evaluation} (hfinite : result.value.isFinite = true) :
      Settles places tree (.ok result)
  | math (e : MathError) : Settles places tree (.error (.math e))
  | places {fault : PlacesFault} (hcalls : tree.calls = true) (hblames : fault.Blames places) :
      Settles places tree (.error (.places fault))

theorem evaluateBinary_settles {places : Int} {symbol : String} {op : Operator}
    {left right : Expr} {grouped : Bool} {l r : Evaluation}
    (hop : Operator.ofSymbol? symbol = some op) :
    Settles places (.binary symbol left right grouped) (evaluateBinary symbol grouped l r) := by
  simp only [evaluateBinary, hop]
  cases hvalue : op.calculate l.value r.value with
  | error e => exact .math e
  | ok value => exact .value (Operator.calculate_clean hvalue).1

theorem evaluateUnary_settles {library : Numerics} (h : library.Reliable) {places : Int}
    {name : String} {f : Unary} {argument : Expr} {a : Evaluation}
    (hf : Unary.ofName? name = some f) (ha : a.value.isFinite = true) :
    Settles places (.apply name argument) (evaluateUnary places name a) := by
  simp only [evaluateUnary, hf]
  rcases Unary.calculate_settles (f := f) h ha with ⟨value, hvalue, hfinite, -⟩ | ⟨e, he⟩
  · simp only [hvalue]
    cases hstep : Step.ofUnary places f a.value value with
    | ok step => exact .value hfinite
    | error fault =>
        -- The function is not negation, and negation alone has the name that `calls` leaves out.
        rcases Step.ofUnary_eq_error_iff.1 hstep with ⟨hne, hblames⟩
        refine .places ?_ hblames
        have hname : name ≠ Unary.negate.name := by
          rintro rfl
          rw [Unary.ofName?_name] at hf
          cases hf
          exact hne rfl
        simp [calls, hname]
  · simp only [he]
    exact .math e

/-- A tree settles as its operand does, if that has no value. -/
theorem Settles.of_operand {places : Int} {operand tree : Expr} {e : EvaluationError}
    (hcalls : operand.calls = true → tree.calls = true)
    (h : Settles places operand (.error e)) : Settles places tree (.error e) := by
  cases h with
  | math e => exact .math e
  | places hoperand hblames => exact .places (hcalls hoperand) hblames

/-- Proper trees settle, if the library is to be relied on. -/
theorem settles_of_proper {library : Numerics} (hlibrary : library.Reliable) (places : Int)
    {tree : Expr} (h : tree.Proper) :
    Settles places tree (tree.evaluate places) := by
  -- What an operand fails with is passed on as it is. Only its value has to be finite for the
  -- operation above it, and that is what settling says.
  induction h with
  | literal hfinite => exact .value hfinite
  | @binary symbol op left right grouped hop _ _ ihleft ihright =>
      simp only [evaluate]
      split
      · rename_i e he
        rw [he] at ihleft
        exact ihleft.of_operand fun hcalls => by simp [calls, hcalls]
      · split
        · rename_i e he
          rw [he] at ihright
          exact ihright.of_operand fun hcalls => by simp [calls, hcalls]
        · exact evaluateBinary_settles hop
  | @apply name f argument hf _ ih =>
      simp only [evaluate]
      split
      · rename_i e he
        rw [he] at ih
        exact ih.of_operand fun hcalls => by simp [calls, hcalls]
      · rename_i a ha
        rw [ha] at ih
        cases ih with
        | value hfinite => exact evaluateUnary_settles hlibrary hf hfinite

end Expr

end Reckoner
