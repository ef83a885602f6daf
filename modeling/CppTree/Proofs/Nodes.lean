import CppTree.Tree

/-!
# Nodes and parts

The nodes of a tree, each before its parts.  What is asked of every node of a tree passes to the
trees it is made of: `Expr.nodes` unfolds construct by construct.
-/

namespace CppTree

/-- The expressions that an expression is made of, in the order of its constructor. -/
def Expr.parts : Expr → List Expr
  | assign target value => [target, value]
  | binary _ left right => [left, right]
  | prefixed _ operand => [operand]
  | suffixed _ operand => [operand]
  | index base position => [base, position]
  | call callee arguments => callee :: arguments
  | lambda body parameters => body :: parameters
  | access base _ _ => [base]
  | allocation _ dimensions => dimensions
  | conditional condition thenBranch elseBranch => [condition, thenBranch, elseBranch]
  | tuple elements => elements
  | ret value => value.toList
  | block statements => statements
  | literal _ => []

mutual

/-- Every node of an expression, each before its parts. -/
def Expr.nodes : Expr → List Expr
  | .assign target value => .assign target value :: (target.nodes ++ value.nodes)
  | .binary op left right => .binary op left right :: (left.nodes ++ right.nodes)
  | .prefixed op operand => .prefixed op operand :: operand.nodes
  | .suffixed op operand => .suffixed op operand :: operand.nodes
  | .index base position => .index base position :: (base.nodes ++ position.nodes)
  | .call callee arguments => .call callee arguments :: (callee.nodes ++ Expr.nodesOf arguments)
  | .lambda body parameters => .lambda body parameters :: (body.nodes ++ Expr.nodesOf parameters)
  | .access base op member => .access base op member :: base.nodes
  | .allocation elementType dimensions =>
    .allocation elementType dimensions :: Expr.nodesOf dimensions
  | .conditional condition thenBranch elseBranch =>
    .conditional condition thenBranch elseBranch ::
      (condition.nodes ++ thenBranch.nodes ++ elseBranch.nodes)
  | .tuple elements => .tuple elements :: Expr.nodesOf elements
  | .ret none => [.ret none]
  | .ret (some value) => .ret (some value) :: value.nodes
  | .block statements => .block statements :: Expr.nodesOf statements
  | .literal text => [.literal text]

def Expr.nodesOf : List Expr → List Expr
  | [] => []
  | e :: es => e.nodes ++ Expr.nodesOf es

end

@[simp]
theorem Expr.nodesOf_eq_flatMap (es : List Expr) : Expr.nodesOf es = es.flatMap Expr.nodes := by
  induction es with
  | nil => simp [Expr.nodesOf]
  | cons e es ih => simp [Expr.nodesOf, ih]

theorem Expr.nodes_eq (e : Expr) : e.nodes = e :: e.parts.flatMap Expr.nodes := by
  cases e with
  | ret value => cases value <;> simp [nodes, parts]
  | _ => simp [nodes, parts]

section
variable {P : Expr → Prop} {e : Expr}

theorem Expr.self_of_nodes (h : ∀ x ∈ e.nodes, P x) : P e :=
  h e (by rw [nodes_eq]; simp)

theorem Expr.part_of_nodes (h : ∀ x ∈ e.nodes, P x) {part : Expr} (hpart : part ∈ e.parts) :
    ∀ x ∈ part.nodes, P x := by
  intro x hx
  apply h x
  rw [nodes_eq]
  exact List.mem_cons_of_mem _ (List.mem_flatMap.mpr ⟨part, hpart, hx⟩)

end

theorem Expr.induct_parts {motive : Expr → Prop}
    (h : ∀ e : Expr, (∀ part ∈ e.parts, motive part) → motive e) (e : Expr) : motive e := by
  have hcons {first : Expr} {rest : List Expr} (hfirst : motive first)
      (hrest : ∀ part ∈ rest, motive part) : ∀ part ∈ first :: rest, motive part :=
    List.forall_mem_cons.mpr ⟨hfirst, hrest⟩
  have hnil : ∀ part ∈ ([] : List Expr), motive part := List.forall_mem_nil motive
  induction e using Expr.induct with
  | assign _ _ hfirst hsecond | binary _ _ _ hfirst hsecond | index _ _ hfirst hsecond =>
    exact h _ (hcons hfirst (hcons hsecond hnil))
  | prefixed _ _ hoperand | suffixed _ _ hoperand | access _ _ _ hoperand =>
    exact h _ (hcons hoperand hnil)
  | conditional _ _ _ hcondition hthen helse =>
    exact h _ (hcons hcondition (hcons hthen (hcons helse hnil)))
  | call _ _ hfirst hrest | lambda _ _ hfirst hrest => exact h _ (hcons hfirst hrest)
  | allocation _ _ hparts | tuple _ hparts | block _ hparts => exact h _ hparts
  | ret value hvalue => exact h _ (by simpa [parts] using hvalue)
  | literal text => exact h _ hnil

/-- The expressions at the top of a tree. -/
def Tree.tops : Tree → List Expr
  | unit u => u.statements
  | statement e | expression e => [e]

def Tree.nodes (tree : Tree) : List Expr :=
  tree.tops.flatMap Expr.nodes

end CppTree
