import CppTree.Expr.Equality

/-!
# Trees

What a backend is handed: a whole compilation unit, one statement, or one expression.  A statement
and the expression in it are different values and are treated alike.
-/

namespace CppTree

/-- A compilation unit.  Its statements are written in the order in which they are stored. -/
structure CompilationUnit where
  statements : List Expr := []
deriving DecidableEq, Inhabited

/-- What a backend is handed: a whole unit, one statement, or one expression. -/
inductive Tree where
  | unit (unit : CompilationUnit)
  | statement (expr : Expr)
  | expression (expr : Expr)
deriving DecidableEq, Inhabited

/-- The kind of a tree.  A statement is of the kind of its expression. -/
def Tree.kind : Tree → Kind
  | unit _ => .unit
  | statement e | expression e => e.kind

end CppTree
