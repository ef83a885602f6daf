import CppTree.Census
import CppTree.Proofs.Paths

/-!
# The order of a census

Every handler of the census records the kind of its construct and then walks the parts in order
(`Census.visit_eq`), so a walk adds the kinds of the nodes in pre-order, whatever the census has
recorded before and in whatever form the tree is handed over.  Main statement:
`Census.walk_records_preorder`.
-/

namespace CppTree

namespace Census

@[simp]
theorem toList_kinds_add (census : Census) (kind : Kind) :
    (census.add kind).kinds.toList = census.kinds.toList ++ [kind] := by
  rw [add, Array.toList_push]

/-- A node is recorded by its kind, and then its parts are. -/
theorem visit_eq (e : Expr) (census : Census) :
    visit e census = visitAll e.parts (census.add e.kind) := by
  -- One case for each construct, once for all: a walk depends on `kind` and `parts` alone.
  cases e with
  | ret value => cases value <;> rfl
  | _ => rfl

theorem walk_eq (census : Census) (tree : Tree) :
    census.walk tree = visitAll tree.parts (census.add tree.kind) := by
  cases tree with
  | unit u => rfl
  | statement e | expression e => exact visit_eq e census

/-- What every member of a list adds to any census, the list adds in order. -/
theorem toList_kinds_visitAll {es : List Expr}
    (h : ∀ e ∈ es, ∀ census,
      (visit e census).kinds.toList = census.kinds.toList ++ e.preorder) (census : Census) :
    (visitAll es census).kinds.toList = census.kinds.toList ++ es.flatMap Expr.preorder := by
  induction es generalizing census with
  | nil => rw [visitAll, List.flatMap_nil, List.append_nil]
  | cons e es ih =>
    have hfirst := h e List.mem_cons_self census
    have hrest := ih (fun e he => h e (List.mem_cons_of_mem _ he)) (visit e census)
    rw [visitAll, hrest, hfirst, List.flatMap_cons, List.append_assoc]

theorem toList_kinds_visit (e : Expr) (census : Census) :
    (visit e census).kinds.toList = census.kinds.toList ++ e.preorder := by
  induction e using Expr.induct_parts generalizing census with
  | h e ih =>
    rw [visit_eq, toList_kinds_visitAll ih, toList_kinds_add, Expr.preorder_eq, List.append_assoc,
      List.singleton_append]

/-- A walk adds the kinds of the tree in pre-order to what has been recorded. -/
theorem toList_kinds_walk (census : Census) (tree : Tree) :
    (census.walk tree).kinds.toList = census.kinds.toList ++ tree.preorder := by
  have hparts : (visitAll tree.parts (census.add tree.kind)).kinds.toList =
      (census.add tree.kind).kinds.toList ++ tree.parts.flatMap Expr.preorder :=
    toList_kinds_visitAll (fun e _ => toList_kinds_visit e) _
  rw [walk_eq, hparts, toList_kinds_add, Tree.preorder_eq, List.append_assoc,
    List.singleton_append]
  rfl

/-! ## Forms of a tree -/

/-- The handler of a construct does what a walk of the expression does. -/
theorem accept_construct (e : Expr) (census : Census) :
    e.construct.accept backend census = visit e census := by
  cases e with
  | ret value => cases value <;> rfl
  | _ => rfl

theorem accept_backend (tree : Tree) (census : Census) :
    tree.accept backend census = census.walk tree := by
  cases tree with
  | unit u => rfl
  | statement e | expression e => exact accept_construct e census

/-- A walk adds the kinds of a tree in pre-order to what the census has recorded: the kind of the
tree, then those of its parts in the order of the constructor.  It makes no difference whether an
expression is handed over as such, as a statement or as the construct it is.  Every node is recorded
once, in the order of the paths; the number of kinds added is the number of nodes. -/
theorem walk_records_preorder (census : Census) (tree : Tree) :
    (census.walk tree).kinds.toList = census.kinds.toList ++ tree.preorder ∧
    (tree.preorder =
      tree.kind :: tree.parts.flatMap fun part => (Tree.expression part).preorder) ∧
    tree.accept backend census = census.walk tree ∧
    (∀ e : Expr, census.walk (.statement e) = census.walk (.expression e) ∧
      e.construct.accept backend census = census.walk (.expression e)) ∧
    (∃ tour, tree.IsTour tour ∧ tour.map Prod.snd = tree.preorder) ∧
    (census.walk tree).kinds.size =
      census.kinds.size + {path | (tree.kindAt? path).isSome}.ncard := by
  have hadded := toList_kinds_walk census tree
  have hsize : (census.walk tree).kinds.size = census.kinds.size + tree.preorder.length := by
    rw [← Array.length_toList, hadded, List.length_append, Array.length_toList]
  refine ⟨hadded, tree.preorder_eq, accept_backend tree census, ?_, tree.exists_tour, ?_⟩
  · intro e
    exact ⟨rfl, accept_construct e census⟩
  · rw [hsize, tree.length_preorder]

/-- The body of a lambda comes before its parameters. -/
example : (kindsOf (.expression (.lambda (.literal "a") [.tuple []]))).toList =
    [.lambda, .literal, .tuple] := by
  decide

end Census

end CppTree
