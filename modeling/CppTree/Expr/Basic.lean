import CppTree.Kind
import CppTree.Operator.Tables
import CppTree.Name.Identifier
import CppTree.Name.TypeName

/-!
# Expressions

The tree a compiler front end hands to a backend.  Every expression is also a statement, so blocks
and parameter lists are plain lists of expressions.  `Expr.induct` is induction over an expression
together with the lists in it.
-/

namespace CppTree

/-- A C++ expression.  Operators, member names and element types are already checked; the text of a
literal is opaque. -/
inductive Expr where
  | assign (target value : Expr)
  | binary (op : BinaryOp) (left right : Expr)
  | prefixed (op : PrefixOp) (operand : Expr)
  | suffixed (op : SuffixOp) (operand : Expr)
  | index (base position : Expr)
  | call (callee : Expr) (arguments : List Expr)
  | lambda (body : Expr) (parameters : List Expr)
  | access (base : Expr) (op : AccessOp) (member : Identifier)
  /-- An allocation: of an array if there are dimensions, else of a single element. -/
  | allocation (elementType : TypeName) (dimensions : List Expr)
  | conditional (condition thenBranch elseBranch : Expr)
  | tuple (elements : List Expr)
  /-- A return, bare if there is no value. -/
  | ret (value : Option Expr)
  | block (statements : List Expr)
  | literal (text : String)

instance : Inhabited Expr := ⟨.literal ""⟩

def Expr.kind : Expr → Kind
  | assign .. => .assign
  | binary .. => .binary
  | prefixed .. => .prefixed
  | suffixed .. => .suffixed
  | index .. => .index
  | call .. => .call
  | lambda .. => .lambda
  | access .. => .access
  | allocation .. => .allocation
  | conditional .. => .conditional
  | tuple .. => .tuple
  | ret .. => .ret
  | block .. => .block
  | literal .. => .literal

/-- Induction over expressions: a property that passes from the parts of every construct to the
construct holds of every expression. -/
@[elab_as_elim]
theorem Expr.induct {motive : Expr → Prop}
    (assign : ∀ target value, motive target → motive value → motive (.assign target value))
    (binary : ∀ op left right, motive left → motive right → motive (.binary op left right))
    (prefixed : ∀ op operand, motive operand → motive (.prefixed op operand))
    (suffixed : ∀ op operand, motive operand → motive (.suffixed op operand))
    (index : ∀ base position, motive base → motive position → motive (.index base position))
    (call : ∀ callee arguments, motive callee → (∀ e ∈ arguments, motive e) →
      motive (.call callee arguments))
    (lambda : ∀ body parameters, motive body → (∀ e ∈ parameters, motive e) →
      motive (.lambda body parameters))
    (access : ∀ base op member, motive base → motive (.access base op member))
    (allocation : ∀ elementType dimensions, (∀ e ∈ dimensions, motive e) →
      motive (.allocation elementType dimensions))
    (conditional : ∀ condition thenBranch elseBranch, motive condition → motive thenBranch →
      motive elseBranch → motive (.conditional condition thenBranch elseBranch))
    (tuple : ∀ elements, (∀ e ∈ elements, motive e) → motive (.tuple elements))
    (ret : ∀ value : Option Expr, (∀ e ∈ value, motive e) → motive (.ret value))
    (block : ∀ statements, (∀ e ∈ statements, motive e) → motive (.block statements))
    (literal : ∀ text, motive (.literal text)) (e : Expr) : motive e := by
  refine @Expr.rec motive (fun es => ∀ e ∈ es, motive e) (fun value => ∀ e ∈ value, motive e)
    assign binary prefixed suffixed index call lambda access allocation conditional tuple ret block
    literal ?_ ?_ ?_ ?_ e
  · simp
  · intro first rest hfirst hrest e he
    rcases List.mem_cons.mp he with rfl | he
    · exact hfirst
    · exact hrest e he
  · simp
  · intro value hvalue e he
    cases he
    exact hvalue

end CppTree
