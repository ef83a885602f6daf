import CppTree.Proofs.Nodes

/-!
# Contexts

Expressions and trees with a hole where an expression stands.  Filling the hole with one thing or
another changes nothing around it; in particular the binding strength and the kind of what is filled
show through only if the context is the hole itself.  Every node of a tree stands in some context
(`TreeContext.exists_fill_eq_iff`).
-/

namespace CppTree

/-- An expression with a hole in it. -/
inductive Context where
  | hole
  | assignTarget (inner : Context) (value : Expr)
  | assignValue (target : Expr) (inner : Context)
  | binaryLeft (op : BinaryOp) (inner : Context) (right : Expr)
  | binaryRight (op : BinaryOp) (left : Expr) (inner : Context)
  | prefixed (op : PrefixOp) (inner : Context)
  | suffixed (op : SuffixOp) (inner : Context)
  | indexBase (inner : Context) (position : Expr)
  | indexPosition (base : Expr) (inner : Context)
  | callCallee (inner : Context) (arguments : List Expr)
  | callArgument (callee : Expr) (before : List Expr) (inner : Context) (after : List Expr)
  | lambdaBody (inner : Context) (parameters : List Expr)
  | lambdaParameter (body : Expr) (before : List Expr) (inner : Context) (after : List Expr)
  | access (inner : Context) (op : AccessOp) (member : Identifier)
  | dimension (elementType : TypeName) (before : List Expr) (inner : Context) (after : List Expr)
  | conditionalIf (inner : Context) (thenBranch elseBranch : Expr)
  | conditionalThen (condition : Expr) (inner : Context) (elseBranch : Expr)
  | conditionalElse (condition thenBranch : Expr) (inner : Context)
  | element (before : List Expr) (inner : Context) (after : List Expr)
  | returned (inner : Context)
  | blockLine (before : List Expr) (inner : Context) (after : List Expr)

def Context.fill (e : Expr) : Context → Expr
  | hole => e
  | assignTarget inner value => .assign (inner.fill e) value
  | assignValue target inner => .assign target (inner.fill e)
  | binaryLeft op inner right => .binary op (inner.fill e) right
  | binaryRight op left inner => .binary op left (inner.fill e)
  | prefixed op inner => .prefixed op (inner.fill e)
  | suffixed op inner => .suffixed op (inner.fill e)
  | indexBase inner position => .index (inner.fill e) position
  | indexPosition base inner => .index base (inner.fill e)
  | callCallee inner arguments => .call (inner.fill e) arguments
  | callArgument callee before inner after => .call callee (before ++ inner.fill e :: after)
  | lambdaBody inner parameters => .lambda (inner.fill e) parameters
  | lambdaParameter body before inner after => .lambda body (before ++ inner.fill e :: after)
  | access inner op member => .access (inner.fill e) op member
  | dimension elementType before inner after =>
    .allocation elementType (before ++ inner.fill e :: after)
  | conditionalIf inner thenBranch elseBranch => .conditional (inner.fill e) thenBranch elseBranch
  | conditionalThen condition inner elseBranch =>
    .conditional condition (inner.fill e) elseBranch
  | conditionalElse condition thenBranch inner => .conditional condition thenBranch (inner.fill e)
  | element before inner after => .tuple (before ++ inner.fill e :: after)
  | returned inner => .ret (some (inner.fill e))
  | blockLine before inner after => .block (before ++ inner.fill e :: after)

inductive TreeContext where
  | unit (before : List Expr) (inner : Context) (after : List Expr)
  | statement (inner : Context)
  | expression (inner : Context)

def TreeContext.fill (e : Expr) : TreeContext → Tree
  | unit before inner after => .unit ⟨before ++ inner.fill e :: after⟩
  | statement inner => .statement (inner.fill e)
  | expression inner => .expression (inner.fill e)

/-! ## Where the nodes stand -/

theorem Context.mem_nodes_fill (context : Context) (e : Expr) : e ∈ (context.fill e).nodes := by
  have hstep {inner whole : Expr} (hpart : inner ∈ whole.parts) (h : e ∈ inner.nodes) :
      e ∈ whole.nodes := by
    rw [Expr.nodes_eq]
    exact List.mem_cons_of_mem _ (List.mem_flatMap.mpr ⟨inner, hpart, h⟩)
  induction context with
  | hole =>
    rw [fill, Expr.nodes_eq]
    exact List.mem_cons_self
  | assignTarget _ _ ih | assignValue _ _ ih | binaryLeft _ _ _ ih | binaryRight _ _ _ ih
  | prefixed _ _ ih | suffixed _ _ ih | indexBase _ _ ih | indexPosition _ _ ih
  | callCallee _ _ ih | callArgument _ _ _ _ ih | lambdaBody _ _ ih | lambdaParameter _ _ _ _ ih
  | access _ _ _ ih | dimension _ _ _ _ ih | conditionalIf _ _ _ ih | conditionalThen _ _ _ ih
  | conditionalElse _ _ _ ih | element _ _ _ ih | returned _ ih | blockLine _ _ _ ih =>
    exact hstep (by simp [fill, Expr.parts]) ih

/-- A part stands in its expression, and what stands in the part stands in the expression. -/
theorem Context.exists_fill_of_mem_parts {e : Expr} (inner : Context) (x : Expr)
    (h : inner.fill x ∈ e.parts) : ∃ context : Context, context.fill x = e := by
  have hpair {part first second : Expr} (h : part ∈ [first, second]) :
      part = first ∨ part = second := by simpa using h
  cases e with
  | assign target value =>
    rcases hpair h with rfl | rfl
    · exact ⟨.assignTarget inner value, rfl⟩
    · exact ⟨.assignValue target inner, rfl⟩
  | binary op left right =>
    rcases hpair h with rfl | rfl
    · exact ⟨.binaryLeft op inner right, rfl⟩
    · exact ⟨.binaryRight op left inner, rfl⟩
  | prefixed op operand =>
    obtain rfl := List.mem_singleton.mp h
    exact ⟨.prefixed op inner, rfl⟩
  | suffixed op operand =>
    obtain rfl := List.mem_singleton.mp h
    exact ⟨.suffixed op inner, rfl⟩
  | index base position =>
    rcases hpair h with rfl | rfl
    · exact ⟨.indexBase inner position, rfl⟩
    · exact ⟨.indexPosition base inner, rfl⟩
  | call callee arguments =>
    rcases List.mem_cons.mp h with rfl | h
    · exact ⟨.callCallee inner arguments, rfl⟩
    · obtain ⟨before, after, rfl⟩ := List.append_of_mem h
      exact ⟨.callArgument callee before inner after, rfl⟩
  | lambda body parameters =>
    rcases List.mem_cons.mp h with rfl | h
    · exact ⟨.lambdaBody inner parameters, rfl⟩
    · obtain ⟨before, after, rfl⟩ := List.append_of_mem h
      exact ⟨.lambdaParameter body before inner after, rfl⟩
  | access base op member =>
    obtain rfl := List.mem_singleton.mp h
    exact ⟨.access inner op member, rfl⟩
  | allocation elementType dimensions =>
    obtain ⟨before, after, rfl⟩ := List.append_of_mem h
    exact ⟨.dimension elementType before inner after, rfl⟩
  | conditional condition thenBranch elseBranch =>
    rcases List.mem_cons.mp h with rfl | h
    · exact ⟨.conditionalIf inner thenBranch elseBranch, rfl⟩
    rcases hpair h with rfl | rfl
    · exact ⟨.conditionalThen condition inner elseBranch, rfl⟩
    · exact ⟨.conditionalElse condition thenBranch inner, rfl⟩
  | tuple elements =>
    obtain ⟨before, after, rfl⟩ := List.append_of_mem h
    exact ⟨.element before inner after, rfl⟩
  | ret value =>
    cases value with
    | none => cases h
    | some value =>
      obtain rfl := List.mem_singleton.mp h
      exact ⟨.returned inner, rfl⟩
  | block statements =>
    obtain ⟨before, after, rfl⟩ := List.append_of_mem h
    exact ⟨.blockLine before inner after, rfl⟩
  | literal text => cases h

theorem Context.exists_fill_eq_iff {x e : Expr} :
    (∃ context : Context, context.fill x = e) ↔ x ∈ e.nodes := by
  constructor
  · rintro ⟨context, rfl⟩
    exact context.mem_nodes_fill x
  · intro h
    induction e using Expr.induct_parts with
    | h e ih =>
      rw [Expr.nodes_eq, List.mem_cons, List.mem_flatMap] at h
      rcases h with rfl | ⟨part, hpart, hx⟩
      · exact ⟨.hole, rfl⟩
      · obtain ⟨inner, rfl⟩ := ih part hpart hx
        exact inner.exists_fill_of_mem_parts x hpart

/-- The nodes of a tree are what stands in its contexts. -/
theorem TreeContext.exists_fill_eq_iff {x : Expr} {tree : Tree} :
    (∃ context : TreeContext, context.fill x = tree) ↔ x ∈ tree.nodes := by
  constructor
  · rintro ⟨context, rfl⟩
    cases context with
    | unit before inner after =>
      exact List.mem_flatMap.mpr
        ⟨inner.fill x, List.mem_append_cons_self, inner.mem_nodes_fill x⟩
    | statement inner | expression inner =>
      exact List.mem_flatMap.mpr ⟨inner.fill x, List.mem_singleton_self _, inner.mem_nodes_fill x⟩
  · intro h
    obtain ⟨top, htop, hx⟩ := List.mem_flatMap.mp h
    obtain ⟨inner, rfl⟩ := Context.exists_fill_eq_iff.mpr hx
    cases tree with
    | unit u =>
      obtain ⟨statements⟩ := u
      obtain ⟨before, after, rfl⟩ := List.append_of_mem htop
      exact ⟨.unit before inner after, rfl⟩
    | statement e =>
      obtain rfl := List.mem_singleton.mp htop
      exact ⟨.statement inner, rfl⟩
    | expression e =>
      obtain rfl := List.mem_singleton.mp htop
      exact ⟨.expression inner, rfl⟩

end CppTree
