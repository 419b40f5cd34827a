import Mathlib
import Reckoner.Solve
import Reckoner.Proofs.Evaluation.Proper

/-!
# Evaluation in Post-Order

What evaluating a tree comes to, said in three ways that agree. By rules
(`Evaluates`), the operands of a node are evaluated from left to right and then
its operation is applied to their values. By nodes (`find?_nodes`), the first one
in post-order that has no value is to blame. And by work (`run`), the nodes are
visited in post-order, each of them once, with the values still to be used on a
stack and the steps in one growing list.

The last is how a calculation is done on paper. `run_nodes` says that the nodes of
a tree can stand anywhere among others: they use no value that was there before,
and if one of them fails, it does not matter what comes after it.

A function can fail after its value has been found, when the step cannot be
written with so many decimal places. `sineOverZero_stepFails` is a division by zero
that is not reported for that reason.

## Main definitions

* `Evaluates`: The rules of evaluation.
* `nodes`: The nodes of a tree in post-order.
* `Work`, `visit`, `run`: Working through nodes with a stack and a list of steps.

## Theorems

* `evaluates_iff`: The rules give what is evaluated.
* `of_mem_nodes`: What a tree hands down to its operands holds of all nodes.
* `find?_nodes`: The first node that fails decides.
* `run_nodes`: Working through the nodes of a tree evaluates it.
* `evaluateTree_postOrder`: All of these, and one step for each operation.
-/

namespace Reckoner

namespace PostOrder

section Rules

variable {library : Numerics} (settings : Settings) (places : Option Int)

/-- The value of a tree by rules: operands first and the left one before the
    right one, then the operation on their values, which leaves one step behind. A literal
    without a number is refused here as it is there, and no text has one. -/
inductive Evaluates [Numerics] : Expr → Except Failure Evaluation → Prop
  | literal {value : Double} : Evaluates (.literal (some value)) (.ok ⟨value, []⟩)
  | noValue : Evaluates (.literal none) (.error (.fault .noValue))
  | foreign {shown : String} :
      Evaluates (.foreign shown) (.error (.fault (.notAnExpression shown)))
  | leftFails {symbol : String} {left right : Expr} {grouped : Bool} {e : Failure}
      (hleft : Evaluates left (.error e)) :
      Evaluates (.binary symbol left right grouped) (.error e)
  | rightFails {symbol : String} {left right : Expr} {grouped : Bool} {l : Evaluation} {e : Failure}
      (hleft : Evaluates left (.ok l)) (hright : Evaluates right (.error e)) :
      Evaluates (.binary symbol left right grouped) (.error e)
  | operatorFails {symbol : String} {left right : Expr} {grouped : Bool} {l r : Evaluation}
      {e : Failure} (hleft : Evaluates left (.ok l)) (hright : Evaluates right (.ok r))
      (hvalue : applyOperator symbol l.value r.value = .error e) :
      Evaluates (.binary symbol left right grouped) (.error e)
  | binary {symbol : String} {op : Operator} {left right : Expr} {grouped : Bool}
      {l r : Evaluation} {value : Double} (hleft : Evaluates left (.ok l))
      (hright : Evaluates right (.ok r)) (hop : Operator.ofSymbol? symbol = some op)
      (hvalue : applyOperator symbol l.value r.value = .ok value) :
      Evaluates (.binary symbol left right grouped)
        (.ok ⟨value, l.steps ++ r.steps ++ [Step.ofOperator op l.value r.value value grouped]⟩)
  | argumentFails {name : String} {argument : Expr} {e : Failure}
      (hargument : Evaluates argument (.error e)) : Evaluates (.apply name argument) (.error e)
  | functionFails {name : String} {argument : Expr} {a : Evaluation} {e : Failure}
      (hargument : Evaluates argument (.ok a)) (hvalue : applyFunction name a.value = .error e) :
      Evaluates (.apply name argument) (.error e)
  | stepFails {name : String} {f : Unary} {argument : Expr} {a : Evaluation} {value : Double}
      {fault : PlacesFault} (hargument : Evaluates argument (.ok a))
      (hf : Unary.ofName? name = some f) (hvalue : applyFunction name a.value = .ok value)
      (hne : f ≠ .negate) (hblames : fault.Blames (settings.places places)) :
      Evaluates (.apply name argument) (.error (.fault (.places fault)))
  | apply {name : String} {f : Unary} {argument : Expr} {a : Evaluation} {value : Double}
      {step : Step} (hargument : Evaluates argument (.ok a)) (hf : Unary.ofName? name = some f)
      (hvalue : applyFunction name a.value = .ok value)
      (hstep : Step.ofUnary (settings.places places) f a.value value = .ok step) :
      Evaluates (.apply name argument) (.ok ⟨value, a.steps ++ [step]⟩)

/-- An operation on evaluated operands. -/
def operate (symbol : String) (grouped : Bool) (l r : Evaluation) : Except Failure Evaluation :=
  (Expr.evaluateBinary symbol grouped l r).mapError Failure.ofEvaluation

/-- A function on an evaluated argument. -/
def callOn [Numerics] (name : String) (a : Evaluation) : Except Failure Evaluation :=
  (Expr.evaluateUnary (settings.places places) name a).mapError Failure.ofEvaluation

theorem evaluateTree_binary [Numerics] (symbol : String) (left right : Expr) (grouped : Bool) :
    evaluateTree settings places (.binary symbol left right grouped) =
      match evaluateTree settings places left with
      | .error e => .error e
      | .ok l =>
        match evaluateTree settings places right with
        | .error e => .error e
        | .ok r => operate symbol grouped l r := by
  simp only [evaluateTree, Expr.evaluate]
  cases left.evaluate (settings.places places) with
  | error e => rfl
  | ok l =>
      cases right.evaluate (settings.places places) with
      | error e => rfl
      | ok r => rfl

theorem evaluateTree_apply [Numerics] (name : String) (argument : Expr) :
    evaluateTree settings places (.apply name argument) =
      match evaluateTree settings places argument with
      | .error e => .error e
      | .ok a => callOn settings places name a := by
  simp only [evaluateTree, Expr.evaluate]
  cases argument.evaluate (settings.places places) with
  | error e => rfl
  | ok a => rfl

variable {settings places}

theorem operate_of_error {symbol : String} {grouped : Bool} {l r : Evaluation} {e : Failure}
    (h : applyOperator symbol l.value r.value = .error e) :
    operate symbol grouped l r = .error e := by
  simp only [applyOperator, operate, Expr.evaluateBinary] at h ⊢
  cases hop : Operator.ofSymbol? symbol with
  | none =>
      simp only [hop] at h ⊢
      cases h
      rfl
  | some op =>
      simp only [hop] at h ⊢
      cases hvalue : op.calculate l.value r.value with
      | ok value =>
          rw [hvalue] at h
          cases h
      | error m =>
          rw [hvalue] at h
          cases h
          rfl

theorem operate_of_ok {symbol : String} {op : Operator} {grouped : Bool} {l r : Evaluation}
    {value : Double} (hop : Operator.ofSymbol? symbol = some op)
    (h : applyOperator symbol l.value r.value = .ok value) :
    operate symbol grouped l r =
      .ok ⟨value, l.steps ++ r.steps ++ [Step.ofOperator op l.value r.value value grouped]⟩ := by
  simp only [applyOperator, operate, Expr.evaluateBinary, hop] at h ⊢
  cases hvalue : op.calculate l.value r.value with
  | ok result =>
      rw [hvalue] at h
      cases h
      rfl
  | error m =>
      rw [hvalue] at h
      cases h

/-- An operator that has been applied exists. -/
theorem exists_of_applyOperator {symbol : String} {x y value : Double}
    (h : applyOperator symbol x y = .ok value) : ∃ op, Operator.ofSymbol? symbol = some op := by
  simp only [applyOperator] at h
  split at h
  · cases h
  · rename_i op hop
    exact ⟨op, hop⟩

theorem callOn_of_error {name : String} {a : Evaluation} {e : Failure}
    (h : applyFunction name a.value = .error e) : callOn settings places name a = .error e := by
  simp only [applyFunction, callOn, Expr.evaluateUnary] at h ⊢
  cases hf : Unary.ofName? name with
  | none =>
      simp only [hf] at h ⊢
      cases h
      rfl
  | some f =>
      simp only [hf] at h ⊢
      rcases hvalue : f.calculate a.value with (m | shown) | value <;> simp only [hvalue] at h ⊢
      · cases h
        rfl
      · cases h
        rfl
      · cases h

theorem callOn_of_ok {name : String} {f : Unary} {a : Evaluation} {value : Double}
    (hf : Unary.ofName? name = some f) (h : applyFunction name a.value = .ok value) :
    callOn settings places name a =
      match Step.ofUnary (settings.places places) f a.value value with
      | .error fault => .error (.fault (.places fault))
      | .ok step => .ok ⟨value, a.steps ++ [step]⟩ := by
  simp only [applyFunction, callOn, Expr.evaluateUnary, hf] at h ⊢
  rcases hvalue : f.calculate a.value with (m | shown) | result <;> simp only [hvalue] at h ⊢
  · cases h
  · cases h
  · cases h
    cases Step.ofUnary (settings.places places) f a.value value with
    | error fault => rfl
    | ok step => rfl

/-- A function that has been applied exists. -/
theorem exists_of_applyFunction {name : String} {x value : Double}
    (h : applyFunction name x = .ok value) : ∃ f, Unary.ofName? name = some f := by
  simp only [applyFunction] at h
  split at h
  · cases h
  · rename_i f hf
    exact ⟨f, hf⟩

/-- What the rules give is what is evaluated. -/
theorem eq_evaluateTree {tree : Expr} {o : Except Failure Evaluation}
    (h : Evaluates settings places tree o) : evaluateTree settings places tree = o := by
  induction h with
  | literal => rfl
  | noValue => rfl
  | foreign => rfl
  | leftFails _ ih => simp only [evaluateTree_binary, ih]
  | rightFails _ _ ihleft ihright => simp only [evaluateTree_binary, ihleft, ihright]
  | operatorFails _ _ hvalue ihleft ihright =>
      simp only [evaluateTree_binary, ihleft, ihright]
      exact operate_of_error hvalue
  | binary _ _ hop hvalue ihleft ihright =>
      simp only [evaluateTree_binary, ihleft, ihright]
      exact operate_of_ok hop hvalue
  | argumentFails _ ih => simp only [evaluateTree_apply, ih]
  | functionFails _ hvalue ih =>
      simp only [evaluateTree_apply, ih]
      exact callOn_of_error hvalue
  | stepFails _ hf hvalue hne hblames ih =>
      simp only [evaluateTree_apply, ih, callOn_of_ok hf hvalue,
        Step.ofUnary_eq_error_iff.2 ⟨hne, hblames⟩]
  | apply _ hf hvalue hstep ih =>
      simp only [evaluateTree_apply, ih, callOn_of_ok hf hvalue, hstep]

/-- What is evaluated has a derivation by the rules. -/
theorem evaluates_evaluateTree [Numerics] (settings : Settings) (places : Option Int)
    (tree : Expr) :
    Evaluates settings places tree (evaluateTree settings places tree) := by
  induction tree with
  | literal value =>
      cases value with
      | none => exact .noValue
      | some value => exact .literal
  | foreign shown => exact .foreign
  | binary symbol left right grouped ihleft ihright =>
      rw [evaluateTree_binary]
      -- The left operand is evaluated first, so its failure is taken before the other.
      rcases hl : evaluateTree settings places left with e | l <;> rw [hl] at ihleft
      · exact .leftFails ihleft
      rcases hr : evaluateTree settings places right with e | r <;> rw [hr] at ihright
      · exact .rightFails ihleft ihright
      simp only []
      cases hvalue : applyOperator symbol l.value r.value with
      | error e =>
          rw [operate_of_error hvalue]
          exact .operatorFails ihleft ihright hvalue
      | ok value =>
          rcases exists_of_applyOperator hvalue with ⟨op, hop⟩
          rw [operate_of_ok hop hvalue]
          exact .binary ihleft ihright hop hvalue
  | apply name argument ih =>
      rw [evaluateTree_apply]
      rcases ha : evaluateTree settings places argument with e | a <;> rw [ha] at ih
      · exact .argumentFails ih
      simp only []
      cases hvalue : applyFunction name a.value with
      | error e =>
          rw [callOn_of_error hvalue]
          exact .functionFails ih hvalue
      | ok value =>
          rcases exists_of_applyFunction hvalue with ⟨f, hf⟩
          rw [callOn_of_ok hf hvalue]
          -- There is a value, but the step of a named function may not be writable.
          cases hstep : Step.ofUnary (settings.places places) f a.value value with
          | error fault =>
              rcases Step.ofUnary_eq_error_iff.1 hstep with ⟨hne, hblames⟩
              exact .stepFails ih hf hvalue hne hblames
          | ok step => exact .apply ih hf hvalue hstep

/-- The rules give what is evaluated, and nothing else. -/
theorem evaluates_iff {tree : Expr} {o : Except Failure Evaluation} :
    Evaluates settings places tree o ↔ evaluateTree settings places tree = o := by
  refine ⟨eq_evaluateTree, ?_⟩
  rintro rfl
  exact evaluates_evaluateTree settings places tree

/-- The nodes of a tree in post-order, each with the tree below it. -/
def nodes : Expr → List Expr
  | .literal value => [.literal value]
  | .binary symbol left right grouped =>
    nodes left ++ nodes right ++ [.binary symbol left right grouped]
  | .apply name argument => nodes argument ++ [.apply name argument]
  | .foreign shown => [.foreign shown]

/-- What a tree hands down to its operands holds of all nodes. -/
theorem of_mem_nodes {P : Expr → Prop}
    (hbinary : ∀ {symbol left right grouped}, P (.binary symbol left right grouped) →
      P left ∧ P right)
    (happly : ∀ {name argument}, P (.apply name argument) → P argument) {tree n : Expr}
    (htree : P tree) (hn : n ∈ nodes tree) : P n := by
  induction tree with
  | literal value =>
      cases List.mem_singleton.1 hn
      exact htree
  | foreign shown =>
      cases List.mem_singleton.1 hn
      exact htree
  | binary symbol left right grouped ihleft ihright =>
      simp only [nodes, List.mem_append, List.mem_singleton] at hn
      rcases hn with (hn | hn) | rfl
      · exact ihleft (hbinary htree).1 hn
      · exact ihright (hbinary htree).2 hn
      · exact htree
  | apply name argument ih =>
      simp only [nodes, List.mem_append, List.mem_singleton] at hn
      rcases hn with hn | rfl
      · exact ih (happly htree) hn
      · exact htree

/-- Whether a tree has no value. -/
def fails [Numerics] (settings : Settings) (places : Option Int) (tree : Expr) : Bool :=
  match evaluateTree settings places tree with
  | .ok _ => false
  | .error _ => true

theorem fails_of_error {n : Expr} {e : Failure} (h : evaluateTree settings places n = .error e) :
    fails settings places n = true := by
  simp only [fails, h]

theorem fails_of_ok {n : Expr} {r : Evaluation} (h : evaluateTree settings places n = .ok r) :
    fails settings places n = false := by
  simp only [fails, h]

/-- The outcome of a tree as its nodes tell it: no node fails, or the first that
    does, in post-order, fails in the same way. -/
def Told [Numerics] (settings : Settings) (places : Option Int) (tree : Expr) : Prop :=
  match evaluateTree settings places tree with
  | .ok _ => (nodes tree).find? (fails settings places) = none
  | .error e => ∃ n, (nodes tree).find? (fails settings places) = some n ∧
      evaluateTree settings places n = .error e

/-- A tree whose operands do not fail is told by its root. -/
theorem told_of_root {tree : Expr} (before : List Expr) (hnodes : nodes tree = before ++ [tree])
    (hbefore : before.find? (fails settings places) = none) : Told settings places tree := by
  simp only [Told, hnodes, List.find?_append, hbefore, Option.none_or]
  cases h : evaluateTree settings places tree with
  | ok r => simp [fails_of_ok h]
  | error e => exact ⟨tree, by simp [fails_of_error h], h⟩

/-- A tree with an operand that fails is told by it, if none before it does. -/
theorem told_of_operand {tree operand : Expr} (before after : List Expr) {e : Failure}
    (hnodes : nodes tree = before ++ nodes operand ++ after)
    (hbefore : before.find? (fails settings places) = none)
    (hoperand : evaluateTree settings places operand = .error e)
    (htree : evaluateTree settings places tree = .error e) (h : Told settings places operand) :
    Told settings places tree := by
  simp only [Told, hoperand] at h
  rcases h with ⟨n, hn, he⟩
  simp only [Told, htree, hnodes, List.find?_append, hbefore, hn, Option.none_or, Option.some_or]
  exact ⟨n, rfl, he⟩

theorem told [Numerics] (settings : Settings) (places : Option Int) (tree : Expr) :
    Told settings places tree := by
  -- The operand to blame, if there is one, is the first that fails. Everything before it in
  -- post-order succeeds by the hypotheses about the operands before it.
  induction tree with
  | literal value => exact told_of_root [] rfl rfl
  | foreign shown => exact told_of_root [] rfl rfl
  | binary symbol left right grouped ihleft ihright =>
      have htree := evaluateTree_binary settings places symbol left right grouped
      cases hl : evaluateTree settings places left with
      | error e =>
          simp only [hl] at htree
          exact told_of_operand [] (nodes right ++ [.binary symbol left right grouped])
            (by simp [nodes]) rfl hl htree ihleft
      | ok l =>
          simp only [Told, hl] at ihleft
          cases hr : evaluateTree settings places right with
          | error e =>
              simp only [hl, hr] at htree
              exact told_of_operand (nodes left) [_] rfl ihleft hr htree ihright
          | ok r =>
              simp only [Told, hr] at ihright
              exact told_of_root (nodes left ++ nodes right) rfl
                (by simp only [List.find?_append, ihleft, ihright, Option.none_or])
  | apply name argument ih =>
      have htree := evaluateTree_apply settings places name argument
      cases ha : evaluateTree settings places argument with
      | error e =>
          simp only [ha] at htree
          exact told_of_operand [] [_] rfl rfl ha htree ih
      | ok a =>
          simp only [Told, ha] at ih
          exact told_of_root (nodes argument) rfl ih

/-- The first node that fails, in post-order, decides. -/
theorem find?_nodes {tree : Expr} {e : Failure} :
    evaluateTree settings places tree = .error e ↔
      ∃ n, (nodes tree).find? (fails settings places) = some n ∧
        evaluateTree settings places n = .error e := by
  have htold := told settings places tree
  constructor
  · intro h
    simpa only [Told, h] using htold
  · rintro ⟨n, hn, he⟩
    cases h : evaluateTree settings places tree with
    | ok r =>
        simp only [Told, h] at htold
        rw [htold] at hn
        cases hn
    | error e' =>
        simp only [Told, h] at htold
        rcases htold with ⟨n', hn', he'⟩
        cases hn.symm.trans hn'
        exact he'.symm.trans he

/-- The values still to be used, the latest first, and the steps so far. -/
structure Work where
  values : List Double
  steps : List Step

/-- What one node does: its operation takes the latest values for its operands,
    puts its own value in their place and its step after the others. A node that
    lacks operands does nothing, but in post-order that does not happen. -/
def visit [Numerics] (settings : Settings) (places : Option Int) (work : Work) (node : Expr) :
    Except Failure Work :=
  match node, work with
  | .literal (some value), ⟨values, steps⟩ => .ok ⟨value :: values, steps⟩
  | .binary symbol _ _ grouped, ⟨r :: l :: values, steps⟩ =>
    (operate symbol grouped ⟨l, []⟩ ⟨r, []⟩).map fun result =>
      ⟨result.value :: values, steps ++ result.steps⟩
  | .apply name _, ⟨a :: values, steps⟩ =>
    (callOn settings places name ⟨a, []⟩).map fun result =>
      ⟨result.value :: values, steps ++ result.steps⟩
  | .literal none, _ => .error (.fault .noValue)
  | .foreign shown, _ => .error (.fault (.notAnExpression shown))
  | _, work => .ok work

/-- The nodes of a list one after the other. -/
def run [Numerics] (settings : Settings) (places : Option Int) (work : Work) (ns : List Expr) :
    Except Failure Work := ns.foldlM (visit settings places) work

theorem run_cons (work : Work) (n : Expr) (ns : List Expr) :
    run settings places work (n :: ns) =
      match visit settings places work n with
      | .error e => .error e
      | .ok next => run settings places next ns := by
  simp only [run, List.foldlM_cons]
  cases visit settings places work n with
  | error e => rfl
  | ok next => rfl

theorem operate_alone (symbol : String) (grouped : Bool) (l r : Evaluation) :
    operate symbol grouped l r =
      (operate symbol grouped ⟨l.value, []⟩ ⟨r.value, []⟩).map fun result =>
        ⟨result.value, l.steps ++ r.steps ++ result.steps⟩ := by
  cases hvalue : applyOperator symbol l.value r.value with
  | error e => rw [operate_of_error hvalue, operate_of_error (by exact hvalue)]; rfl
  | ok value =>
      rcases exists_of_applyOperator hvalue with ⟨op, hop⟩
      rw [operate_of_ok hop hvalue, operate_of_ok hop (by exact hvalue)]
      rfl

theorem callOn_alone [Numerics] (name : String) (a : Evaluation) :
    callOn settings places name a =
      (callOn settings places name ⟨a.value, []⟩).map fun result =>
        ⟨result.value, a.steps ++ result.steps⟩ := by
  cases hvalue : applyFunction name a.value with
  | error e => rw [callOn_of_error hvalue, callOn_of_error (by exact hvalue)]; rfl
  | ok value =>
      rcases exists_of_applyFunction hvalue with ⟨f, hf⟩
      rw [callOn_of_ok hf hvalue, callOn_of_ok hf (by exact hvalue)]
      cases Step.ofUnary (settings.places places) f a.value value with
      | error fault => rfl
      | ok step => rfl

/-- Working through the nodes of a tree puts its value on top and its steps at
    the end, or fails as the tree does, whatever was there and comes after. -/
theorem run_nodes [Numerics] (tree : Expr) (work : Work) (after : List Expr) :
    run settings places work (nodes tree ++ after) =
      match evaluateTree settings places tree with
      | .error e => .error e
      | .ok r => run settings places ⟨r.value :: work.values, work.steps ++ r.steps⟩ after := by
  -- The work and the nodes that come after are general: the right operand starts with the value
  -- of the left one on the stack, and the node of the operation comes after both.
  induction tree generalizing work after with
  | literal value =>
      cases value with
      | none => rfl
      | some value =>
          rw [nodes, List.singleton_append, run_cons]
          simp [visit, evaluateTree, Expr.evaluate, Except.mapError]
  | foreign shown => rfl
  | binary symbol left right grouped ihleft ihright =>
      rw [nodes, List.append_assoc, List.append_assoc, ihleft, evaluateTree_binary]
      cases evaluateTree settings places left with
      | error e => rfl
      | ok l =>
          simp only []
          rw [ihright]
          cases evaluateTree settings places right with
          | error e => rfl
          | ok r =>
              -- The steps are appended here one node at a time, and there three lists at once.
              simp only [List.singleton_append, run_cons, visit]
              rw [operate_alone symbol grouped l r]
              cases operate symbol grouped ⟨l.value, []⟩ ⟨r.value, []⟩ with
              | error e => rfl
              | ok result => simp [Except.map]
  | apply name argument ih =>
      rw [nodes, List.append_assoc, ih, evaluateTree_apply]
      cases evaluateTree settings places argument with
      | error e => rfl
      | ok a =>
          simp only [List.singleton_append, run_cons, visit]
          rw [callOn_alone name a]
          cases callOn settings places name ⟨a.value, []⟩ with
          | error e => rfl
          | ok result => simp [Except.map]

theorem steps_of_evaluateTree {tree : Expr} {r : Evaluation}
    (h : evaluateTree settings places tree = .ok r) : r.steps.length = tree.operations := by
  simp only [evaluateTree] at h
  cases hevaluate : tree.evaluate (settings.places places) with
  | error e =>
      rw [hevaluate] at h
      cases h
  | ok result =>
      rw [hevaluate] at h
      cases h
      exact Expr.evaluate_steps hevaluate

/-- A tree is evaluated by the rules. The first node that fails in post-order is
    to blame, whatever comes after it, and working through the nodes in that
    order, with one list of steps for all of them, gives the value of the tree and
    a step for each of its operations. -/
theorem evaluateTree_postOrder [Numerics] (settings : Settings) (places : Option Int) :
    (∀ tree o, Evaluates settings places tree o ↔ evaluateTree settings places tree = o) ∧
    (∀ tree e, evaluateTree settings places tree = .error e ↔
      ∃ n, (nodes tree).find? (fails settings places) = some n ∧
        evaluateTree settings places n = .error e) ∧
    (∀ tree work after, run settings places work (nodes tree ++ after) =
      match evaluateTree settings places tree with
      | .error e => .error e
      | .ok r => run settings places ⟨r.value :: work.values, work.steps ++ r.steps⟩ after) ∧
    (∀ tree r, evaluateTree settings places tree = .ok r → r.steps.length = tree.operations) :=
  ⟨fun _ _ => evaluates_iff, fun _ _ => find?_nodes, run_nodes, fun _ _ => steps_of_evaluateTree⟩

end Rules

/-- The tree of `sin(30)/0`. -/
def sineOverZero : Expr :=
  .binary "/" (.apply "sin" (.literal (some (Double.ofRat 30)))) (.literal (some Double.zero)) false

/-- With one decimal place too many the sine has a value and still fails, and so
    the division by zero after it is not reported. -/
theorem sineOverZero_stepFails :
    (∃ value, applyFunction "sin" (Double.ofRat 30) = .ok value) ∧
      evaluateTree Settings.defaults (some (maxHalfWord + 1))
        (.apply "sin" (.literal (some (Double.ofRat 30)))) = .error (.fault (.places .tooMany)) ∧
      evaluateTree Settings.defaults (some (maxHalfWord + 1)) sineOverZero =
        .error (.fault (.places .tooMany)) := by
  have hvalue : ∃ value, applyFunction "sin" (Double.ofRat 30) = .ok value := by
    have hok : (applyFunction "sin" (Double.ofRat 30)).toBool = true := by decide +kernel
    cases h : applyFunction "sin" (Double.ofRat 30) with
    | ok value => exact ⟨value, rfl⟩
    | error e =>
        rw [h] at hok
        cases hok
  rcases hvalue with ⟨value, hvalue⟩
  have hf : Unary.ofName? "sin" = some .sine := by decide
  have hblames : PlacesFault.tooMany.Blames (Settings.defaults.places (some (maxHalfWord + 1))) :=
    ⟨by decide, by decide⟩
  have hsine : Evaluates Settings.defaults (some (maxHalfWord + 1))
      (.apply "sin" (.literal (some (Double.ofRat 30)))) (.error (.fault (.places .tooMany))) :=
    .stepFails (a := ⟨Double.ofRat 30, []⟩) .literal hf hvalue (by decide) hblames
  exact ⟨⟨value, hvalue⟩, evaluates_iff.1 hsine, evaluates_iff.1 (.leftFails hsine)⟩

end PostOrder

end Reckoner
