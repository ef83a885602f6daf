import CppTree.Proofs.Census.Preorder

/-!
# Coverage

A census that walks any number of trees records of each what a new census records of it.  The kinds
it then misses are those of which the trees have no node, so neither the order of the walks nor
their repetition matters, and no further walk adds to them.  Main statement:
`Census.missing_walkAll_exact`.
-/

namespace CppTree

/-! ## Missing kinds -/

theorem Kind.mem_all (kind : Kind) : kind ∈ all := by
  cases kind <;> decide

theorem Kind.nodup_all : all.Nodup := by
  decide

namespace Census

theorem mem_missing_iff {census : Census} {kind : Kind} :
    kind ∈ census.missing ↔ kind ∉ census.kinds.toList := by
  unfold missing
  simp [Kind.mem_all]

/-- A census that has met more misses less. -/
theorem missing_sublist {before after : Census}
    (h : ∀ kind ∈ before.kinds.toList, kind ∈ after.kinds.toList) :
    after.missing.Sublist before.missing := by
  unfold missing
  apply List.monotone_filter_right
  intro kind hkind
  have hafter : kind ∉ after.kinds.toList := by simpa using hkind
  have hbefore : kind ∉ before.kinds.toList := fun hmem => hafter (h kind hmem)
  simpa using hbefore

/-! ## Walks one after another -/

def walkAll (census : Census) (trees : List Tree) : Census :=
  trees.foldl walk census

theorem toList_kindsOf (tree : Tree) : (kindsOf tree).toList = tree.preorder := by
  unfold kindsOf
  rw [toList_kinds_walk]
  rfl

theorem toList_kinds_walkAll (census : Census) (trees : List Tree) :
    (census.walkAll trees).kinds.toList =
      census.kinds.toList ++ trees.flatMap fun tree => (kindsOf tree).toList := by
  induction trees generalizing census with
  | nil => rw [List.flatMap_nil, List.append_nil, walkAll, List.foldl_nil]
  | cons tree trees ih =>
    have hrest : census.walkAll (tree :: trees) = (census.walk tree).walkAll trees := rfl
    rw [hrest, ih, toList_kinds_walk, List.flatMap_cons, toList_kindsOf, List.append_assoc]

/-- After a run of walks a kind is recorded if and only if one of the trees reaches it. -/
theorem mem_kinds_walkAll_iff {trees : List Tree} {kind : Kind} :
    kind ∈ (walkAll {} trees).kinds.toList ↔ ∃ tree ∈ trees, tree.Reaches kind := by
  rw [toList_kinds_walkAll]
  simp [toList_kindsOf, Tree.mem_preorder_iff]

theorem missing_walkAll_eq_nil_iff {trees : List Tree} :
    (walkAll {} trees).missing = [] ↔
      (∃ u, Tree.unit u ∈ trees) ∧ ∀ kind, kind ≠ .unit → ∃ tree ∈ trees, tree.Reaches kind := by
  have hunit : (∃ tree ∈ trees, tree.Reaches .unit) ↔ ∃ u, Tree.unit u ∈ trees := by
    simp only [Tree.reaches_unit_iff]
    grind
  -- No kind is missing if each is reached, and what reaches the kind of units is a unit.
  rw [List.eq_nil_iff_forall_not_mem]
  simp only [mem_missing_iff, not_not, mem_kinds_walkAll_iff, ← hunit]
  constructor
  · intro h
    exact ⟨h .unit, fun kind _ => h kind⟩
  · intro h kind
    by_cases hkind : kind = .unit
    · rw [hkind]
      exact h.1
    · exact h.2 kind hkind

/-- A census that has walked a list of trees has recorded, one after the other, what a new census
records of each.  It misses, in the order of all kinds and each once, exactly the kinds that none of
the trees reaches.  So it misses the same after any walks of these trees, in any order and however
often; a further walk leaves it no more to miss; and it misses nothing if and only if it has met a
unit and an expression of every kind. -/
theorem missing_walkAll_exact (trees : List Tree) :
    ((walkAll {} trees).kinds.toList = trees.flatMap fun tree => (kindsOf tree).toList) ∧
    ((walkAll {} trees).missing.Sublist Kind.all ∧ (walkAll {} trees).missing.Nodup ∧
      ∀ kind, kind ∈ (walkAll {} trees).missing ↔
        kind ∈ Kind.all ∧ ∀ tree ∈ trees, ¬ tree.Reaches kind) ∧
    (∀ others : List Tree, (∀ tree, tree ∈ others ↔ tree ∈ trees) →
      (walkAll {} others).missing = (walkAll {} trees).missing) ∧
    (∀ tree, ((walkAll {} trees).walk tree).missing.Sublist (walkAll {} trees).missing) ∧
    ((walkAll {} trees).missing = [] ↔
      (∃ u, Tree.unit u ∈ trees) ∧
        ∀ kind, kind ≠ .unit → ∃ tree ∈ trees, tree.Reaches kind) := by
  have hsublist : (walkAll {} trees).missing.Sublist Kind.all := List.filter_sublist
  refine ⟨?_, ⟨hsublist, hsublist.nodup Kind.nodup_all, ?_⟩, ?_, ?_, missing_walkAll_eq_nil_iff⟩
  · exact toList_kinds_walkAll {} trees
  · intro kind
    rw [mem_missing_iff, mem_kinds_walkAll_iff]
    simp [Kind.mem_all]
  · -- What is recorded depends on which trees there are, and the missing kinds only on that.
    intro others hothers
    have hsame (kind : Kind) : kind ∈ (walkAll {} others).kinds.toList ↔
        kind ∈ (walkAll {} trees).kinds.toList := by
      simp only [mem_kinds_walkAll_iff, hothers]
    apply List.Sublist.antisymm
    · exact missing_sublist fun kind => (hsame kind).mpr
    · exact missing_sublist fun kind => (hsame kind).mp
  · intro tree
    apply missing_sublist
    intro kind hkind
    rw [toList_kinds_walk]
    exact List.mem_append_left _ hkind

def doublingTrees : List Tree :=
  [.unit ⟨[.binary .multiply (.literal "2") (.literal "n")]⟩, .statement (.ret none)]

/-- Trees walked backwards and then once more count as walked once.  The path to the first factor
shows that no literal is missing. -/
theorem missing_repeatedWalks :
    (∀ tree, tree ∈ doublingTrees.reverse ++ doublingTrees ↔ tree ∈ doublingTrees) ∧
    (walkAll {} (doublingTrees.reverse ++ doublingTrees)).missing =
      (walkAll {} doublingTrees).missing ∧
    .literal ∉ (walkAll {} doublingTrees).missing := by
  obtain ⟨-, ⟨-, -, hmissing⟩, hsame, -⟩ := missing_walkAll_exact doublingTrees
  have htrees : ∀ tree, tree ∈ doublingTrees.reverse ++ doublingTrees ↔ tree ∈ doublingTrees := by
    intro tree
    rw [List.mem_append, List.mem_reverse, or_self]
  refine ⟨htrees, hsame _ htrees, ?_⟩
  intro hliteral
  have hunreached := ((hmissing .literal).mp hliteral).2 _ List.mem_cons_self
  exact hunreached ⟨[0, 0], rfl⟩

end Census

end CppTree
