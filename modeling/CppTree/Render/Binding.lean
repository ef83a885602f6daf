import CppTree.Expr.Basic

/-!
# Binding strengths

How tightly the outermost operator of an expression holds its operands, on the scale of
`BinaryOp.precedence`, and how tightly the operands of an operator have to bind.  An operand that
binds less tightly than its place demands stands in round brackets.
-/

namespace CppTree

namespace Binding

/-- The strength of assignment, the loosest. -/
def assignment : Nat := 1

def conditional : Nat := 2

/-- What the left side of an assignment and the condition of a conditional demand: more than a
conditional has. -/
def aboveConditional : Nat := conditional + 1

/-- The strength of prefix operators and allocations, above that of every binary operator. -/
def unary : Nat := 13

/-- The strength of everything that ends in its own text: subscripts, calls, accesses, literals. -/
def postfixed : Nat := 14

end Binding

/-- How tightly an expression binds.  Returns and blocks belong in statement position only and are
never put in brackets. -/
def Expr.binding : Expr → Nat
  | binary op _ _ => op.precedence
  | assign .. => Binding.assignment
  | conditional .. => Binding.conditional
  | prefixed .. | allocation .. => Binding.unary
  | _ => Binding.postfixed

namespace BinaryOp

/-- What a binary operator demands of its left operand. -/
def leftDemand (op : BinaryOp) : Nat :=
  if op.isRightAssociative then Binding.aboveConditional else op.precedence

/-- What a binary operator demands of its right operand. -/
def rightDemand (op : BinaryOp) : Nat :=
  if op.isRightAssociative then op.precedence else op.precedence + 1

end BinaryOp

end CppTree
