import CppTree.Fault

/-!
# Reading operators

An operator family has two tables that are kept apart: how each operator is written, and which
tokens are read and as what.  `Operator.ofToken` looks a token up in the second one; a token that is
not there is a fault that names the fixity.
-/

namespace CppTree

/-- A family of operators of one fixity, with its tables. -/
class Operator (α : Type) where
  /-- Where operators of this family stand. -/
  fixity : Fixity
  /-- The spelling in C++, in which an operator is written. -/
  spelling : α → String
  /-- The tokens that are read, each with its operator.  Words among them are never written. -/
  table : List (String × α)
  /-- The constructor name shown by inspection. -/
  label : α → String

namespace Operator

variable {α : Type} [Operator α]

/-- The operator that a token is read as. -/
def ofToken? (token : String) : Option α :=
  table.lookup token

/-- Reads a token as an operator of this family; any other token is a fault. -/
def ofToken (token : String) : Except Fault α :=
  match ofToken? token with
  | some op => .ok op
  | none => .error (.unknownOperator (fixity α) token)

end Operator

end CppTree
