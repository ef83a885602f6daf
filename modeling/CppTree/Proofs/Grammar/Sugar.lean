import CppTree.Tree

/-!
# The two abbreviations of the layout

A tuple is written as a call of `std::make_tuple`, and the body of a lambda that only returns a value
is written like that value.  `desugared` writes both out everywhere.
-/

namespace CppTree

/-- The value of a return that has one; any other expression itself. -/
def Expr.returned : Expr → Expr
  | ret (some value) => value
  | e => e

def Expr.makeTuple : Expr :=
  .access (.literal "std") .scope ⟨"make_tuple", by decide⟩

mutual

/-- An expression without tuples and without lambda bodies that only return a value. -/
def Expr.desugared : Expr → Expr
  | .assign target value => .assign target.desugared value.desugared
  | .binary op left right => .binary op left.desugared right.desugared
  | .prefixed op operand => .prefixed op operand.desugared
  | .suffixed op operand => .suffixed op operand.desugared
  | .index base position => .index base.desugared position.desugared
  | .call callee arguments => .call callee.desugared (Expr.desugaredOf arguments)
  | .lambda body parameters => .lambda body.desugared.returned (Expr.desugaredOf parameters)
  | .access base op member => .access base.desugared op member
  | .allocation elementType dimensions => .allocation elementType (Expr.desugaredOf dimensions)
  | .conditional condition thenBranch elseBranch =>
    .conditional condition.desugared thenBranch.desugared elseBranch.desugared
  | .tuple elements => .call .makeTuple (Expr.desugaredOf elements)
  | .ret none => .ret none
  | .ret (some value) => .ret (some value.desugared)
  | .block statements => .block (Expr.desugaredOf statements)
  | .literal text => .literal text

def Expr.desugaredOf : List Expr → List Expr
  | [] => []
  | e :: es => e.desugared :: Expr.desugaredOf es

end

@[simp]
theorem Expr.desugaredOf_eq_map (es : List Expr) :
    Expr.desugaredOf es = es.map Expr.desugared := by
  induction es with
  | nil => simp [Expr.desugaredOf]
  | cons e es ih => simp [Expr.desugaredOf, ih]

def CompilationUnit.desugared (unit : CompilationUnit) : CompilationUnit :=
  ⟨unit.statements.map Expr.desugared⟩

end CppTree
