import CppTree.Tree

/-!
# Backends

A backend has one handler for every construct.  Whatever form a tree is handed over in, it is routed
to the handler of its construct and to no other: a statement as the expression in it, an expression
as the single construct it is.  Handlers get the parts as they stand in the tree and decide for
themselves how to go on with them.
-/

namespace CppTree

/-- One node by itself, as a value of its own construct.  Its parts are expressions. -/
inductive Construct where
  | assign (target value : Expr)
  | binary (op : BinaryOp) (left right : Expr)
  | prefixed (op : PrefixOp) (operand : Expr)
  | suffixed (op : SuffixOp) (operand : Expr)
  | index (base position : Expr)
  | call (callee : Expr) (arguments : List Expr)
  | lambda (body : Expr) (parameters : List Expr)
  | access (base : Expr) (op : AccessOp) (member : Identifier)
  | allocation (elementType : TypeName) (dimensions : List Expr)
  | conditional (condition thenBranch elseBranch : Expr)
  | tuple (elements : List Expr)
  | ret (value : Option Expr)
  | block (statements : List Expr)
  | literal (text : String)

/-- The construct that an expression is at its top. -/
def Expr.construct : Expr → Construct
  | assign target value => .assign target value
  | binary op left right => .binary op left right
  | prefixed op operand => .prefixed op operand
  | suffixed op operand => .suffixed op operand
  | index base position => .index base position
  | call callee arguments => .call callee arguments
  | lambda body parameters => .lambda body parameters
  | access base op member => .access base op member
  | allocation elementType dimensions => .allocation elementType dimensions
  | conditional condition thenBranch elseBranch => .conditional condition thenBranch elseBranch
  | tuple elements => .tuple elements
  | ret value => .ret value
  | block statements => .block statements
  | literal text => .literal text

/-- A backend: what it makes of a unit and of each construct.  One that has a state makes a function
on its states. -/
structure Backend (α : Type) where
  unit (u : CompilationUnit) : α
  assign (target value : Expr) : α
  binary (op : BinaryOp) (left right : Expr) : α
  prefixed (op : PrefixOp) (operand : Expr) : α
  suffixed (op : SuffixOp) (operand : Expr) : α
  index (base position : Expr) : α
  call (callee : Expr) (arguments : List Expr) : α
  lambda (body : Expr) (parameters : List Expr) : α
  access (base : Expr) (op : AccessOp) (member : Identifier) : α
  allocation (elementType : TypeName) (dimensions : List Expr) : α
  conditional (condition thenBranch elseBranch : Expr) : α
  tuple (elements : List Expr) : α
  ret (value : Option Expr) : α
  block (statements : List Expr) : α
  literal (text : String) : α

section
variable {α : Type}

/-- Hands a construct to its handler. -/
def Construct.accept (backend : Backend α) : Construct → α
  | assign target value => backend.assign target value
  | binary op left right => backend.binary op left right
  | prefixed op operand => backend.prefixed op operand
  | suffixed op operand => backend.suffixed op operand
  | index base position => backend.index base position
  | call callee arguments => backend.call callee arguments
  | lambda body parameters => backend.lambda body parameters
  | access base op member => backend.access base op member
  | allocation elementType dimensions => backend.allocation elementType dimensions
  | conditional condition thenBranch elseBranch =>
    backend.conditional condition thenBranch elseBranch
  | tuple elements => backend.tuple elements
  | ret value => backend.ret value
  | block statements => backend.block statements
  | literal text => backend.literal text

def Expr.accept (backend : Backend α) (e : Expr) : α :=
  e.construct.accept backend

/-- Hands a tree to the handler of its construct. -/
def Tree.accept (backend : Backend α) : Tree → α
  | unit u => backend.unit u
  | statement e | expression e => e.accept backend

/-- The backend that answers each construct from its kind alone. -/
def Backend.ofKind (answer : Kind → α) : Backend α where
  unit _ := answer .unit
  assign _ _ := answer .assign
  binary _ _ _ := answer .binary
  prefixed _ _ := answer .prefixed
  suffixed _ _ := answer .suffixed
  index _ _ := answer .index
  call _ _ := answer .call
  lambda _ _ := answer .lambda
  access _ _ _ := answer .access
  allocation _ _ := answer .allocation
  conditional _ _ _ := answer .conditional
  tuple _ := answer .tuple
  ret _ := answer .ret
  block _ := answer .block
  literal _ := answer .literal

/-- Every tree is routed to the handler of its kind. -/
theorem Tree.accept_ofKind (answer : Kind → α) (tree : Tree) :
    tree.accept (Backend.ofKind answer) = answer tree.kind := by
  have hexpr (e : Expr) : e.accept (Backend.ofKind answer) = answer e.kind := by
    cases e <;> rfl
  cases tree with
  | unit u => rfl
  | statement e | expression e => exact hexpr e

end

end CppTree
