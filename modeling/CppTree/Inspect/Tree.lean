import CppTree.Inspect.Form
import CppTree.Tree

/-!
# Inspecting trees

A text that shows every constructor, field and list of a tree, for people who debug one.  Operators
are shown by name; member names and element types are shown bare, since their characters cannot be
mistaken for the notation around them.  Which characters of a literal are hidden, and so shown by
their code point, is open; unless told otherwise, they are the control characters.
-/

namespace CppTree

open Inspect

/-- The form of a construct with named parts: its name twice, for the kind of expression and for the
node itself. -/
def Kind.inspect (kind : Kind) (fields : List (String × String)) : String :=
  applied kind.label (record kind.label fields)

/-- The form of a construct with one unnamed part. -/
def Kind.inspectSole (kind : Kind) (content : String) : String :=
  applied kind.label (applied kind.label content)

/-- The form of a statement, from that of its expression. -/
def inspectStatement (expr : String) : String :=
  applied "Expression" expr

mutual

/-- The form of an expression.  Literals show the characters in `hidden` by their code points. -/
def Expr.inspect (hidden : Char → Bool) : Expr → String
  | .assign target value =>
    Kind.assign.inspect [("left", target.inspect hidden), ("right", value.inspect hidden)]
  | .binary op left right =>
    Kind.binary.inspect
      [("operator", op.label), ("left", left.inspect hidden), ("right", right.inspect hidden)]
  | .prefixed op operand =>
    Kind.prefixed.inspect [("operator", op.label), ("operand", operand.inspect hidden)]
  | .suffixed op operand =>
    Kind.suffixed.inspect [("operator", op.label), ("operand", operand.inspect hidden)]
  | .index base position =>
    Kind.index.inspect [("base", base.inspect hidden), ("index", position.inspect hidden)]
  | .call callee arguments =>
    Kind.call.inspect
      [("callee", callee.inspect hidden), ("arguments", listed (Expr.inspectAll hidden arguments))]
  | .lambda body parameters =>
    Kind.lambda.inspect
      [("body", body.inspect hidden),
       ("parameters", listed ((Expr.inspectAll hidden parameters).map inspectStatement))]
  | .access base op member =>
    Kind.access.inspect
      [("base", base.inspect hidden), ("operator", op.label), ("member", member.text)]
  | .allocation elementType dimensions =>
    Kind.allocation.inspect
      [("element_type", elementType.text),
       ("dimensions", listed (Expr.inspectAll hidden dimensions))]
  | .conditional condition thenBranch elseBranch =>
    Kind.conditional.inspect
      [("condition", condition.inspect hidden), ("then_branch", thenBranch.inspect hidden),
       ("else_branch", elseBranch.inspect hidden)]
  | .tuple elements => Kind.tuple.inspectSole (listed (Expr.inspectAll hidden elements))
  | .ret none => Kind.ret.inspectSole "None"
  | .ret (some value) => Kind.ret.inspectSole (applied "Some" (value.inspect hidden))
  | .block statements =>
    Kind.block.inspectSole (listed ((Expr.inspectAll hidden statements).map inspectStatement))
  | .literal text => Kind.literal.inspectSole (quoted hidden text)

def Expr.inspectAll (hidden : Char → Bool) : List Expr → List String
  | [] => []
  | e :: es => e.inspect hidden :: Expr.inspectAll hidden es

end

@[simp]
theorem Expr.inspectAll_eq_map (hidden : Char → Bool) (es : List Expr) :
    Expr.inspectAll hidden es = es.map (Expr.inspect hidden) := by
  induction es with
  | nil => simp [Expr.inspectAll]
  | cons e es ih => simp [Expr.inspectAll, ih]

def Tree.inspect (tree : Tree) (hidden : Char → Bool := isControl) : String :=
  match tree with
  | unit u =>
    record Kind.unit.label
      [("statements", listed (u.statements.map fun e => inspectStatement (e.inspect hidden)))]
  | statement e => inspectStatement (e.inspect hidden)
  | expression e => e.inspect hidden

end CppTree
