import CppTree.Expr.Construct

/-!
# Assemblies

A recipe for one node whose parts are already there: it names the construct, its texts, and how many
parts it takes.
-/

namespace CppTree

/-- What to build from given parts.  A lambda without a count has no parameter list. -/
inductive Assembly where
  | assign
  | binary (token : String)
  | prefixed (token : String)
  | suffixed (token : String)
  | index
  | call (arguments : Nat)
  | lambda (parameters : Option Nat)
  | access (token member : String)
  | allocation (elementType : String) (dimensions : Nat)
  | conditional
  | tuple (elements : Nat)
  | ret (hasValue : Bool)
  | block (statements : Nat)
  | literal (text : String)
deriving DecidableEq

namespace Assembly

/-- How many parts the node takes. -/
def arity : Assembly → Nat
  | assign | binary _ | index => 2
  | prefixed _ | suffixed _ | access .. => 1
  | conditional => 3
  | call arguments => arguments + 1
  | lambda parameters => parameters.getD 0 + 1
  | allocation _ dimensions => dimensions
  | tuple elements => elements
  | ret hasValue => hasValue.toNat
  | block statements => statements
  | literal _ => 0

/-- Builds the node from its parts in constructor order; `none` if their number is not the arity. -/
def build? : Assembly → List Expr → Option (Except Fault Expr)
  | assign, [target, value] => some (.ok (.assign target value))
  | binary token, [left, right] => some (Expr.binaryOf token left right)
  | prefixed token, [operand] => some (Expr.prefixedOf token operand)
  | suffixed token, [operand] => some (Expr.suffixedOf token operand)
  | index, [base, position] => some (.ok (.index base position))
  | call count, callee :: arguments =>
    if arguments.length = count then some (.ok (.call callee arguments)) else none
  | lambda none, [body] => some (.ok (Expr.lambdaOf body none))
  | lambda (some count), body :: parameters =>
    if parameters.length = count then some (.ok (Expr.lambdaOf body (some parameters))) else none
  | access token member, [base] => some (Expr.accessOf base token member)
  | allocation elementType count, dimensions =>
    if dimensions.length = count then some (Expr.allocationOf elementType dimensions) else none
  | conditional, [condition, thenBranch, elseBranch] =>
    some (.ok (.conditional condition thenBranch elseBranch))
  | tuple count, elements =>
    if elements.length = count then some (.ok (.tuple elements)) else none
  | ret false, [] => some (.ok (.ret none))
  | ret true, [value] => some (.ok (.ret (some value)))
  | block count, statements =>
    if statements.length = count then some (.ok (.block statements)) else none
  | literal text, [] => some (.ok (.literal text))
  | _, _ => none

/-- As many parts as the arity are always enough to build, or to find the fault. -/
theorem isSome_build?_iff (assembly : Assembly) (parts : List Expr) :
    (assembly.build? parts).isSome ↔ parts.length = assembly.arity := by
  cases assembly with
  | lambda parameters =>
    cases parameters <;> rcases parts with _ | ⟨a, _ | ⟨b, parts⟩⟩ <;> simp [build?, arity]
    all_goals grind
  | ret hasValue =>
    cases hasValue <;> rcases parts with _ | ⟨a, _ | ⟨b, parts⟩⟩ <;> simp [build?, arity]
  | call arguments => rcases parts with _ | ⟨a, parts⟩ <;> simp [build?, arity]
  | conditional =>
    rcases parts with _ | ⟨a, _ | ⟨b, _ | ⟨c, _ | ⟨d, parts⟩⟩⟩⟩ <;> simp [build?, arity]
  | _ => rcases parts with _ | ⟨a, _ | ⟨b, _ | ⟨c, parts⟩⟩⟩ <;> simp [build?, arity]

end Assembly

end CppTree
