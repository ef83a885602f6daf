import CppTree.Expr.Basic

/-!
# Building one node

Builders for the constructs that carry text to be checked: operators arrive as tokens, member names
and element types as strings.  The first text that does not fit is the fault.  All other constructs
are built by their constructors.
-/

namespace CppTree
namespace Expr

def binaryOf (token : String) (left right : Expr) : Except Fault Expr := do
  return .binary (← Operator.ofToken token) left right

def prefixedOf (token : String) (operand : Expr) : Except Fault Expr := do
  return .prefixed (← Operator.ofToken token) operand

def suffixedOf (token : String) (operand : Expr) : Except Fault Expr := do
  return .suffixed (← Operator.ofToken token) operand

/-- A member access.  The operator is checked before the member. -/
def accessOf (base : Expr) (token member : String) : Except Fault Expr := do
  return .access base (← Operator.ofToken token) (← Identifier.ofText member)

/-- An allocation of the element type that a text spells. -/
def allocationOf (elementType : String) (dimensions : List Expr) : Except Fault Expr := do
  return .allocation (← TypeName.ofText elementType) dimensions

/-- A lambda; without a parameter list it takes no parameters. -/
def lambdaOf (body : Expr) (parameters : Option (List Expr)) : Expr :=
  .lambda body (parameters.getD [])

end Expr
end CppTree
