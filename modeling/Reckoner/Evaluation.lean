import Reckoner.Expr.Basic
import Reckoner.Step

/-!
# Evaluation

The value of a tree, and the steps that lead to it. Operands come before their
operation and the left one before the right one, so the steps are in the order
in which somebody would work them out on paper, and the first operation that
fails in that order is the one reported.

Each operation that succeeds leaves exactly one step behind. A calculation can
fail for two reasons that have nothing to do with each other: the mathematics is
undefined, or the tree asks for something that does not exist.

## Main definitions

* `Evaluation`: A value with the steps that produced it.
* `EvaluationError`: Why a tree has no value.
* `Expr.evaluate`: The value of a tree.

## Theorems

* `evaluate_steps`: There is one step for each operation.
-/

namespace Reckoner

/-- A value with the steps that produced it. -/
structure Evaluation where
  value : Double
  steps : List Step
deriving DecidableEq

/-- Why a tree has no value. `noValue` stands for a literal that is none, see `Expr.evaluate`. -/
inductive EvaluationError
  | math (error : MathError)
  | unknownOperator (symbol : String)
  | unknownFunction (name : String)
  | notAnExpression (shown : String)
  | noValue
  | noDecimal (shown : String)
  | places (fault : PlacesFault)
deriving DecidableEq

namespace Expr

/-- Apply an operator to evaluated operands and record the step. -/
def evaluateBinary (symbol : String) (grouped : Bool) (left right : Evaluation) :
    Except EvaluationError Evaluation :=
  match Operator.ofSymbol? symbol with
  | none => .error (.unknownOperator symbol)
  | some op =>
    match op.calculate left.value right.value with
    | .error e => .error (.math e)
    | .ok value =>
      .ok ⟨value,
        left.steps ++ right.steps ++ [Step.ofOperator op left.value right.value value grouped]⟩

/-- Apply a function to an evaluated argument and record the step. -/
def evaluateUnary [Numerics] (places : Int) (name : String) (argument : Evaluation) :
    Except EvaluationError Evaluation :=
  match Unary.ofName? name with
  | none => .error (.unknownFunction name)
  | some f =>
    match f.calculate argument.value with
    | .error (.math e) => .error (.math e)
    | .error (.noDecimal shown) => .error (.noDecimal shown)
    | .ok value =>
      match Step.ofUnary places f argument.value value with
      | .error fault => .error (.places fault)
      | .ok step => .ok ⟨value, argument.steps ++ [step]⟩

/-- The value of a tree and the steps to it, operands first. A literal is meant to hold a number.
    One without is refused by an error that is not among those of a calculation, and what
    arithmetic would make of nothing is left open: only a token made by hand leads to one, and
    no text does. -/
def evaluate [Numerics] (places : Int) : Expr → Except EvaluationError Evaluation
  | .literal (some value) => .ok ⟨value, []⟩
  | .literal none => .error .noValue
  | .binary symbol left right grouped =>
    match left.evaluate places with
    | .error e => .error e
    | .ok l =>
      match right.evaluate places with
      | .error e => .error e
      | .ok r => evaluateBinary symbol grouped l r
  | .apply name argument =>
    match argument.evaluate places with
    | .error e => .error e
    | .ok a => evaluateUnary places name a
  | .foreign shown => .error (.notAnExpression shown)

theorem evaluateBinary_steps {symbol : String} {grouped : Bool} {l r result : Evaluation}
    (h : evaluateBinary symbol grouped l r = .ok result) :
    result.steps.length = 1 + l.steps.length + r.steps.length := by
  simp only [evaluateBinary] at h
  split at h
  · cases h
  · split at h
    · cases h
    · cases h
      simp only [List.length_append, List.length_cons, List.length_nil]
      omega

theorem evaluateUnary_steps [Numerics] {places : Int} {name : String} {a result : Evaluation}
    (h : evaluateUnary places name a = .ok result) :
    result.steps.length = 1 + a.steps.length := by
  simp only [evaluateUnary] at h
  repeat' split at h
  all_goals cases h
  simp only [List.length_append, List.length_cons, List.length_nil]
  omega

theorem evaluate_steps [Numerics] {places : Int} {e : Expr} {result : Evaluation}
    (h : e.evaluate places = .ok result) : result.steps.length = e.operations := by
  induction e generalizing result with
  | literal value =>
      cases value with
      | none => cases h
      | some v =>
          cases h
          rfl
  | binary symbol left right grouped ihl ihr =>
      simp only [evaluate] at h
      split at h
      · cases h
      · rename_i l hl
        split at h
        · cases h
        · rename_i r hr
          rw [evaluateBinary_steps h, ihl hl, ihr hr, operations]
  | apply name argument ih =>
      simp only [evaluate] at h
      split at h
      · cases h
      · rename_i a ha
        rw [evaluateUnary_steps h, ih ha, operations]
  | foreign shown => cases h

end Expr

/-- An evaluation in one line. -/
def Evaluation.summary (e : Evaluation) : String :=
  s!"EvalResult(value={e.value.text}, steps={e.steps.length})"

end Reckoner
