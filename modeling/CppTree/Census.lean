import CppTree.Backend

/-!
# Census of kinds

A census walks trees and records the kind of every node it meets: a node before its parts, the parts
in the order in which their constructor lists them.  It accumulates over walks, and `Census.missing`
says which kinds it has not met yet.
-/

namespace CppTree

/-- The kinds of the nodes met so far, in the order in which they were met. -/
structure Census where
  kinds : Array Kind := #[]
deriving DecidableEq, Inhabited

namespace Census

def add (census : Census) (kind : Kind) : Census :=
  ⟨census.kinds.push kind⟩

mutual

/-- Records an expression and then its parts. -/
def visit : Expr → Census → Census
  | .assign target value, census => visit value (visit target (census.add .assign))
  | .binary _ left right, census => visit right (visit left (census.add .binary))
  | .prefixed _ operand, census => visit operand (census.add .prefixed)
  | .suffixed _ operand, census => visit operand (census.add .suffixed)
  | .index base position, census => visit position (visit base (census.add .index))
  | .call callee arguments, census => visitAll arguments (visit callee (census.add .call))
  | .lambda body parameters, census => visitAll parameters (visit body (census.add .lambda))
  | .access base _ _, census => visit base (census.add .access)
  | .allocation _ dimensions, census => visitAll dimensions (census.add .allocation)
  | .conditional condition thenBranch elseBranch, census =>
    visit elseBranch (visit thenBranch (visit condition (census.add .conditional)))
  | .tuple elements, census => visitAll elements (census.add .tuple)
  | .ret none, census => census.add .ret
  | .ret (some value), census => visit value (census.add .ret)
  | .block statements, census => visitAll statements (census.add .block)
  | .literal _, census => census.add .literal

/-- Records the members of a list from the first to the last. -/
def visitAll : List Expr → Census → Census
  | [], census => census
  | e :: es, census => visitAll es (visit e census)

end

/-- Records every node of a tree. -/
def walk (census : Census) : Tree → Census
  | .unit u => visitAll u.statements (census.add .unit)
  | .statement e | .expression e => visit e census

/-- The census as a backend: each handler records its construct and walks the parts.  `visit` is the
same recursion with the routing taken into it. -/
def backend : Backend (Census → Census) where
  unit u census := visitAll u.statements (census.add .unit)
  assign target value census := visit value (visit target (census.add .assign))
  binary _ left right census := visit right (visit left (census.add .binary))
  prefixed _ operand census := visit operand (census.add .prefixed)
  suffixed _ operand census := visit operand (census.add .suffixed)
  index base position census := visit position (visit base (census.add .index))
  call callee arguments census := visitAll arguments (visit callee (census.add .call))
  lambda body parameters census := visitAll parameters (visit body (census.add .lambda))
  access base _ _ census := visit base (census.add .access)
  allocation _ dimensions census := visitAll dimensions (census.add .allocation)
  conditional condition thenBranch elseBranch census :=
    visit elseBranch (visit thenBranch (visit condition (census.add .conditional)))
  tuple elements census := visitAll elements (census.add .tuple)
  ret value census :=
    match value with
    | none => census.add .ret
    | some value => visit value (census.add .ret)
  block statements census := visitAll statements (census.add .block)
  literal _ census := census.add .literal

def kindsOf (tree : Tree) : Array Kind :=
  (walk {} tree).kinds

/-- The kinds that no walk has met, in the order of `Kind.all`. -/
def missing (census : Census) : List Kind :=
  Kind.all.filter fun kind => !census.kinds.contains kind

end Census

end CppTree
