import Reckoner.Number.Double

/-!
# Expressions

The tree of an expression. Leaves are numbers and inner nodes are operations,
which keep the symbol or name they were written with. A tree need not come from
a text, so a symbol may stand for no operator, a leaf may lack its number, and a
branch may be something that is no expression at all. None of this is an error
until the tree is evaluated.

A binary operation remembers whether it was written in parentheses. Its value
does not depend on that; only the explanation of its step does.

## Main definitions

* `Expr`: The tree of an expression.
* `Expr.operations`: The number of operations in a tree.
* `Expr.height`: The number of operations on the longest path from the root.
* `Expr.grouped`: The tree, marked as written in parentheses.

## Theorems

* `operations_grouped`: Parentheses are no operation.
-/

namespace Reckoner

/-- The tree of an expression. -/
inductive Expr
  | literal (value : Option Double)
  | binary (symbol : String) (left right : Expr) (grouped : Bool)
  | apply (name : String) (argument : Expr)
  | foreign (shown : String)
deriving DecidableEq, Inhabited

namespace Expr

/-- The number of operations in a tree, which is the number of steps that
    evaluating it takes. -/
def operations : Expr → Nat
  | .literal _ => 0
  | .binary _ left right _ => 1 + left.operations + right.operations
  | .apply _ argument => 1 + argument.operations
  | .foreign _ => 0

/-- The number of operations on the longest path from the root. -/
def height : Expr → Nat
  | .literal _ => 0
  | .binary _ left right _ => 1 + max left.height right.height
  | .apply _ argument => 1 + argument.height
  | .foreign _ => 0

/-- The tree, marked as written in parentheses if its root is a binary
    operation. -/
def grouped : Expr → Expr
  | .binary symbol left right _ => .binary symbol left right true
  | other => other

/-- What kind of tree it is, for the log. -/
def label : Expr → String
  | .literal _ => "Literal"
  | .binary .. => "BinaryOp"
  | .apply .. => "UnaryFunc"
  | .foreign _ => "Foreign"

theorem operations_grouped (e : Expr) : e.grouped.operations = e.operations := by
  cases e <;> rfl

end Expr

end Reckoner
