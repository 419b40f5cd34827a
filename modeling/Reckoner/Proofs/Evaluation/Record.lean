import Mathlib
import Reckoner.Proofs.Evaluation.PostOrder
import Reckoner.Proofs.Grammar.Leaves
import Reckoner.Proofs.Grammar.Limit

/-!
# The Record of an Evaluation

The steps of an evaluation, matched with the nodes of the tree. Literals leave no step
behind. Every other node leaves one, in post-order, and it shows the operation of the
node on the values of its operands. So the list of steps can be read against the list
of operations, first with first and last with last (`records_of_evaluateTree`), and
each step says what happened at one known place of the tree.

The nodes of a tree have no leaves that the tree does not have, and they are nested no
more deeply.

## Main definitions

* `operationNodes`: The nodes of a tree that are operations, in post-order.
* `Operates`, `Applies`: What happens at a node.
* `Records`: The step of a node.

## Theorems

* `records_of_evaluateTree`: Each operation of a tree has its step.
* `literals_of_mem_nodes`, `nesting_of_mem_nodes`: The leaves and the depth of a node.
-/

namespace Reckoner

namespace PostOrder

variable {library : Numerics} {settings : Settings} {places : Option Int}

/-- The node is an operation. -/
def isOperation : Expr → Bool
  | .binary .. => true
  | .apply .. => true
  | _ => false

/-- The nodes of a tree that are operations, in post-order. -/
def operationNodes (tree : Expr) : List Expr := (nodes tree).filter isOperation

/-- What happens at the node of a binary operation: the operands have values, and the
    operator has one on them. -/
structure Operates [Numerics] (settings : Settings) (places : Option Int) (symbol : String)
    (left right : Expr) (op : Operator) (l r value : Double) : Prop where
  found : Operator.ofSymbol? symbol = some op
  left : ∃ steps, evaluateTree settings places left = .ok ⟨l, steps⟩
  right : ∃ steps, evaluateTree settings places right = .ok ⟨r, steps⟩
  value : applyOperator symbol l r = .ok value

/-- What happens at the node of a function: the argument has a value, and the function
    has one on it. -/
structure Applies [Numerics] (settings : Settings) (places : Option Int) (name : String)
    (argument : Expr) (f : Unary) (a value : Double) : Prop where
  found : Unary.ofName? name = some f
  argument : ∃ steps, evaluateTree settings places argument = .ok ⟨a, steps⟩
  value : applyFunction name a = .ok value

/-- The step of a node. It is made of what happened at the node and of nothing else. -/
inductive Records [Numerics] (settings : Settings) (places : Option Int) : Expr → Step → Prop
  | binary {symbol : String} {left right : Expr} {grouped : Bool} {op : Operator}
      {l r value : Double} (h : Operates settings places symbol left right op l r value) :
      Records settings places (.binary symbol left right grouped)
        (Step.ofOperator op l r value grouped)
  | apply {name : String} {argument : Expr} {f : Unary} {a value : Double} {step : Step}
      (h : Applies settings places name argument f a value)
      (hstep : Step.ofUnary (settings.places places) f a value = .ok step) :
      Records settings places (.apply name argument) step

theorem operationNodes_binary (symbol : String) (left right : Expr) (grouped : Bool) :
    operationNodes (.binary symbol left right grouped) =
      operationNodes left ++ operationNodes right ++ [.binary symbol left right grouped] := by
  simp [operationNodes, nodes, isOperation]

theorem operationNodes_apply (name : String) (argument : Expr) :
    operationNodes (.apply name argument) =
      operationNodes argument ++ [.apply name argument] := by
  simp [operationNodes, nodes, isOperation]

/-- Each operation of an evaluated tree has its step, in post-order. -/
theorem records_of_evaluateTree {tree : Expr} {r : Evaluation}
    (h : evaluateTree settings places tree = .ok r) :
    List.Forall₂ (Records settings places) (operationNodes tree) r.steps := by
  have hrules := evaluates_iff.2 h
  clear h
  generalize ho : (Except.ok r : Except Failure Evaluation) = o at hrules
  -- Induction along the rules. The steps of the operands come first in both lists, and the
  -- rule itself adds one node and one step at the end.
  induction hrules generalizing r with
  | literal =>
      cases ho
      exact .nil
  | @binary symbol op left right grouped l r' value hleft hright hop hvalue ihleft ihright =>
      cases ho
      rw [operationNodes_binary]
      have hnode : Operates settings places symbol left right op l.value r'.value value :=
        ⟨hop, ⟨_, evaluates_iff.1 hleft⟩, ⟨_, evaluates_iff.1 hright⟩, hvalue⟩
      exact List.rel_append (List.rel_append (ihleft rfl) (ihright rfl))
        (.cons (.binary hnode) .nil)
  | @apply name f argument a value step hargument hf hvalue hstep ih =>
      cases ho
      rw [operationNodes_apply]
      have hnode : Applies settings places name argument f a.value value :=
        ⟨hf, ⟨_, evaluates_iff.1 hargument⟩, hvalue⟩
      exact List.rel_append (ih rfl) (.cons (.apply hnode hstep) .nil)
  | _ => cases ho

section Nodes

variable {tree n : Expr}

/-- The leaves below a node are leaves of the tree. -/
theorem literals_of_mem_nodes (hn : n ∈ nodes tree) : n.literals ⊆ tree.literals := by
  refine of_mem_nodes (P := fun n => n.literals ⊆ tree.literals) ?_ ?_ (fun _ h => h) hn
  · intro symbol left right grouped h
    exact ⟨fun v hv => h (List.mem_append_left _ hv), fun v hv => h (List.mem_append_right _ hv)⟩
  · exact fun h => h

/-- A node is nested no more deeply than the tree. -/
theorem nesting_of_mem_nodes (hn : n ∈ nodes tree) : n.nesting ≤ tree.nesting := by
  refine of_mem_nodes (P := fun n => n.nesting ≤ tree.nesting) ?_ ?_ (Nat.le_refl _) hn
  · intro symbol left right grouped h
    simp only [Expr.nesting] at h
    omega
  · intro name argument h
    simp only [Expr.nesting] at h
    omega

end Nodes

end PostOrder

end Reckoner
