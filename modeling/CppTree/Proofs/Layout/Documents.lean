import CppTree.Proofs.Layout.Doc
import CppTree.Render.Renderer

/-!
# The documents of trees

Every expression has a document, its C++ text without indentation, made from the documents of its
parts.  No depth is counted: the statements of a block are nested one level deeper, and only
printing turns levels into blanks.
-/

namespace CppTree

namespace Doc

/-- An operand in a place that demands a binding strength. -/
def operand (demand binding : Nat) (body : Doc) : Doc :=
  if binding < demand then body.parenthesized else body

/-- A prefix operator and its operand.  A blank keeps them apart when the operand starts with the
character in which the operator ends, since `- -x` is not `--x`. -/
def prefixed (operator : String) (body : Doc) : Doc :=
  if operator.toList.getLast? = body.first? then operator ++ " " ++ body else operator ++ body

/-- The body of a lambda in curly brackets: a block has them already, a return lacks the semicolon,
and any other expression is returned. -/
def lambdaBody : Kind → Doc → Doc
  | .block, body => body
  | .ret, body => braced (" " ++ body ++ "; ")
  | _, body => braced (" return " ++ body ++ "; ")

end Doc

mutual

/-- The document of an expression, with the capture list of its lambdas. -/
def Expr.doc (capture : String) : Expr → Doc
  | .assign target value =>
    .operand Binding.aboveConditional target.binding (target.doc capture) ++ " = " ++
      .operand Binding.assignment value.binding (value.doc capture)
  | .binary op left right =>
    .operand op.leftDemand left.binding (left.doc capture) ++ " " ++ op.spelling ++ " " ++
      .operand op.rightDemand right.binding (right.doc capture)
  | .prefixed op operand =>
    .prefixed op.spelling (.operand Binding.unary operand.binding (operand.doc capture))
  | .suffixed op operand =>
    .operand Binding.postfixed operand.binding (operand.doc capture) ++ op.spelling
  | .index base position =>
    .operand Binding.postfixed base.binding (base.doc capture) ++ (position.doc capture).bracketed
  | .call callee arguments =>
    .operand Binding.postfixed callee.binding (callee.doc capture) ++
      (Doc.joined ", " (Expr.docs capture arguments)).parenthesized
  | .lambda body parameters =>
    Doc.bracketed capture ++ (Doc.joined ", " (Expr.docs capture parameters)).parenthesized ++
      " " ++ .lambdaBody body.kind (body.doc capture)
  | .access base op member =>
    .operand Binding.postfixed base.binding (base.doc capture) ++ op.spelling ++ member.text
  | .allocation elementType dimensions =>
    "new " ++ elementType.text ++
      if dimensions.isEmpty then Doc.parenthesized .nil
      else (Expr.docs capture dimensions).foldr (fun size rest => size.bracketed ++ rest) .nil
  | .conditional condition thenBranch elseBranch =>
    .operand Binding.aboveConditional condition.binding (condition.doc capture) ++ " ? " ++
      .operand Binding.conditional thenBranch.binding (thenBranch.doc capture) ++ " : " ++
      .operand Binding.conditional elseBranch.binding (elseBranch.doc capture)
  | .tuple elements =>
    "std::make_tuple" ++ (Doc.joined ", " (Expr.docs capture elements)).parenthesized
  | .ret none => "return"
  | .ret (some value) => "return " ++ value.doc capture
  | .block statements =>
    Doc.braced (if statements.isEmpty then .nil else .nest (Expr.lines capture statements) ++ .line)
  | .literal text => text

def Expr.docs (capture : String) : List Expr → List Doc
  | [] => []
  | e :: es => e.doc capture :: Expr.docs capture es

/-- The statements of a block, each after a line start. -/
def Expr.lines (capture : String) : List Expr → Doc
  | [] => .nil
  | e :: es => .line ++ e.doc capture ++ e.kind.terminator ++ Expr.lines capture es

end

@[simp]
theorem Expr.docs_eq_map (capture : String) (es : List Expr) :
    Expr.docs capture es = es.map (Expr.doc capture) := by
  induction es with
  | nil => simp [Expr.docs]
  | cons e es ih => simp [Expr.docs, ih]

/-- The statements of a unit, each with the end of its line.  What follows a line end is not
indented at any depth. -/
def CompilationUnit.doc (capture : String) (unit : CompilationUnit) : Doc :=
  unit.statements.foldr (fun e rest => e.doc capture ++ e.kind.terminator ++ "\n" ++ rest) .nil

/-- The document of a tree.  A statement is laid out like its expression. -/
def Tree.doc (capture : String) : Tree → Doc
  | unit u => u.doc capture
  | statement e | expression e => e.doc capture

end CppTree
