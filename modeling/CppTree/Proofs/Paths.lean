import CppTree.Proofs.Nodes
import Mathlib.Data.Set.Card

/-!
# Paths

A path leads down a tree to one of its nodes: each number in it says which part to go on with.  The
nodes of a tree are told apart by their paths even where they are equal, so a tree has as many nodes
as paths.  The kinds of a tree in pre-order are those at its paths, the paths taken in lexicographic
order (`Tree.exists_tour`).
-/

namespace CppTree

namespace Tree

/-- The expressions that a tree is made of: the statements of a unit, the parts of an expression. -/
def parts : Tree → List Expr
  | unit u => u.statements
  | statement e | expression e => e.parts

/-- The kind of the node to which a path leads; `none` if it leads out of the tree. -/
def kindAt? (tree : Tree) : List Nat → Option Kind
  | [] => some tree.kind
  | i :: path => tree.parts[i]?.bind fun part => (expression part).kindAt? path

theorem induct_parts {motive : Tree → Prop}
    (h : ∀ tree : Tree, (∀ part ∈ tree.parts, motive (expression part)) → motive tree)
    (tree : Tree) : motive tree := by
  have hexpr (e : Expr) : motive (expression e) := by
    induction e using Expr.induct_parts with
    | h e ih => exact h (expression e) ih
  exact h tree fun part _ => hexpr part

end Tree

/-! ## Pre-order -/

/-- The kinds of the nodes of an expression, each before those of its parts. -/
def Expr.preorder (e : Expr) : List Kind :=
  e.nodes.map Expr.kind

/-- The kinds of the nodes of a tree, each before those of its parts.  A unit is a node itself. -/
def Tree.preorder : Tree → List Kind
  | unit u => .unit :: u.statements.flatMap Expr.preorder
  | statement e | expression e => e.preorder

theorem Expr.preorder_eq (e : Expr) : e.preorder = e.kind :: e.parts.flatMap Expr.preorder := by
  unfold preorder
  rw [nodes_eq, List.map_cons, List.map_flatMap]

theorem Tree.preorder_eq (tree : Tree) :
    tree.preorder = tree.kind :: tree.parts.flatMap fun part => (expression part).preorder := by
  cases tree with
  | unit u => rfl
  | statement e | expression e => exact e.preorder_eq

/-! ## Tours

A tour goes through the paths of a tree in order and tells the kind at each. -/

namespace Tree

/-- The list has every path of the tree with the kind at it, in lexicographic order and hence each
path once. -/
structure IsTour (tree : Tree) (tour : List (List Nat × Kind)) : Prop where
  ordered : tour.Pairwise fun earlier later => earlier.1 < later.1
  mem_iff : ∀ path kind, (path, kind) ∈ tour ↔ tree.kindAt? path = some kind

/-- A tour of a part, as a piece of the tour of the tree in which the part has that number. -/
def behind (i : Nat) (tour : List (List Nat × Kind)) : List (List Nat × Kind) :=
  tour.map fun visit => (i :: visit.1, visit.2)

/-- Visits a tree and then its parts, given a tour of each part. -/
def tourFrom (tour : Expr → List (List Nat × Kind)) (tree : Tree) : List (List Nat × Kind) :=
  ([], tree.kind) :: tree.parts.zipIdx.flatMap fun numbered => behind numbered.2 (tour numbered.1)

theorem cons_mem_behind_iff {i j : Nat} {path : List Nat} {kind : Kind}
    {tour : List (List Nat × Kind)} :
    (j :: path, kind) ∈ behind i tour ↔ j = i ∧ (path, kind) ∈ tour := by
  unfold behind
  grind

theorem exists_cons_of_mem_behind {i : Nat} {visit : List Nat × Kind}
    {tour : List (List Nat × Kind)} (h : visit ∈ behind i tour) :
    ∃ path, visit.1 = i :: path := by
  unfold behind at h
  grind

theorem pairwise_behind {i : Nat} {tour : List (List Nat × Kind)}
    (h : tour.Pairwise fun earlier later => earlier.1 < later.1) :
    (behind i tour).Pairwise fun earlier later => earlier.1 < later.1 := by
  unfold behind
  rw [List.pairwise_map]
  apply h.imp
  intro earlier later hlt
  exact List.cons_lt_cons_iff.mpr (.inr ⟨rfl, hlt⟩)

/-- Between the tours of two parts, the numbers of the parts decide. -/
theorem lt_of_mem_behind {i j : Nat} {earlier later : List Nat × Kind}
    {tour tour' : List (List Nat × Kind)} (hlt : i < j) (hearlier : earlier ∈ behind i tour)
    (hlater : later ∈ behind j tour') : earlier.1 < later.1 := by
  obtain ⟨path, hpath⟩ := exists_cons_of_mem_behind hearlier
  obtain ⟨path', hpath'⟩ := exists_cons_of_mem_behind hlater
  rw [hpath, hpath']
  exact List.cons_lt_cons_iff.mpr (.inl hlt)

section
variable {tree : Tree} {tour : Expr → List (List Nat × Kind)}

theorem pairwise_tourFrom
    (h : ∀ part ∈ tree.parts, (tour part).Pairwise fun earlier later => earlier.1 < later.1) :
    (tree.tourFrom tour).Pairwise fun earlier later => earlier.1 < later.1 := by
  have hnumbers : tree.parts.zipIdx.Pairwise fun earlier later => earlier.2 < later.2 := by
    rw [← List.pairwise_map (f := Prod.snd) (R := (· < ·)), List.zipIdx_map_snd]
    exact List.pairwise_lt_range'
  unfold tourFrom
  rw [List.pairwise_cons, List.pairwise_flatMap]
  refine ⟨?_, ?_, ?_⟩
  · -- The empty path comes before all that lead into a part.
    intro visit hvisit
    obtain ⟨numbered, -, hbehind⟩ := List.mem_flatMap.mp hvisit
    obtain ⟨path, hpath⟩ := exists_cons_of_mem_behind hbehind
    rw [hpath]
    exact List.nil_lt_cons _ _
  · intro numbered hnumbered
    exact pairwise_behind (h numbered.1 (List.fst_mem_of_mem_zipIdx hnumbered))
  · apply hnumbers.imp
    intro earlier later hlt visit hvisit visit' hvisit'
    exact lt_of_mem_behind hlt hvisit hvisit'

theorem mem_tourFrom_iff
    (h : ∀ part ∈ tree.parts, ∀ path kind,
      (path, kind) ∈ tour part ↔ (expression part).kindAt? path = some kind)
    (path : List Nat) (kind : Kind) :
    (path, kind) ∈ tree.tourFrom tour ↔ tree.kindAt? path = some kind := by
  unfold tourFrom
  rw [List.mem_cons, List.mem_flatMap]
  cases path with
  | nil =>
    have hbehind (i : Nat) (part : Expr) : ([], kind) ∉ behind i (tour part) := by
      intro hmem
      obtain ⟨path, hpath⟩ := exists_cons_of_mem_behind hmem
      cases hpath
    simp [hbehind, kindAt?, eq_comm]
  | cons i path =>
    simp only [cons_mem_behind_iff, kindAt?, Option.bind_eq_some_iff,
      List.mem_zipIdx_iff_getElem?]
    constructor
    · rintro (heq | ⟨⟨part, j⟩, hpart, rfl, hmem⟩)
      · cases heq
      · exact ⟨part, hpart, (h part (List.mem_of_getElem? hpart) path kind).mp hmem⟩
    · rintro ⟨part, hpart, hkind⟩
      right
      exact ⟨(part, i), hpart, rfl, (h part (List.mem_of_getElem? hpart) path kind).mpr hkind⟩

theorem map_snd_tourFrom
    (h : ∀ part ∈ tree.parts, (tour part).map Prod.snd = (expression part).preorder) :
    (tree.tourFrom tour).map Prod.snd = tree.preorder := by
  have hbehind : ∀ numbered ∈ tree.parts.zipIdx,
      (behind numbered.2 (tour numbered.1)).map Prod.snd = (expression numbered.1).preorder := by
    intro numbered hnumbered
    rw [← h numbered.1 (List.fst_mem_of_mem_zipIdx hnumbered), behind, List.map_map]
    rfl
  calc (tree.tourFrom tour).map Prod.snd
      = tree.kind :: tree.parts.zipIdx.flatMap fun numbered =>
          (behind numbered.2 (tour numbered.1)).map Prod.snd := by
        rw [tourFrom, List.map_cons, List.map_flatMap]
    _ = tree.kind :: (tree.parts.zipIdx.map Prod.fst).flatMap fun part =>
          (expression part).preorder := by
        rw [List.flatMap_map, List.flatMap_congr hbehind]
    _ = tree.preorder := by rw [List.zipIdx_map_fst, preorder_eq]

end

/-- Pre-order tells the kinds of the nodes of a tree in the order of their paths, and each once. -/
theorem exists_tour (tree : Tree) :
    ∃ tour, tree.IsTour tour ∧ tour.map Prod.snd = tree.preorder := by
  induction tree using Tree.induct_parts with
  | h tree ih =>
    -- One tour of each part, so that `tourFrom` can put them together.
    choose! tour htour hkinds using ih
    refine ⟨tree.tourFrom tour, ⟨?_, ?_⟩, map_snd_tourFrom hkinds⟩
    · exact pairwise_tourFrom fun part hpart => (htour part hpart).ordered
    · exact mem_tourFrom_iff fun part hpart => (htour part hpart).mem_iff

/-- A tree has as many nodes as there are paths that do not lead out of it. -/
theorem length_preorder (tree : Tree) :
    tree.preorder.length = {path | (tree.kindAt? path).isSome}.ncard := by
  obtain ⟨tour, htour, hkinds⟩ := tree.exists_tour
  -- The set of paths is finite because a tour lists it, and the tour has none twice.
  have hpaths : {path | (tree.kindAt? path).isSome} = ((tour.map Prod.fst).toFinset : Set _) := by
    ext path
    simp [Option.isSome_iff_exists, htour.mem_iff]
  have hnodup : (tour.map Prod.fst).Nodup := by
    rw [List.nodup_iff_pairwise_ne, List.pairwise_map]
    exact htour.ordered.imp fun hlt => hlt.ne
  rw [hpaths, Set.ncard_coe_finset, List.toFinset_card_of_nodup hnodup, ← hkinds,
    List.length_map, List.length_map]

/-! ## Kinds that a tree reaches -/

/-- Some path leads to a node of the kind. -/
def Reaches (tree : Tree) (kind : Kind) : Prop :=
  ∃ path, tree.kindAt? path = some kind

theorem mem_preorder_iff {tree : Tree} {kind : Kind} :
    kind ∈ tree.preorder ↔ tree.Reaches kind := by
  obtain ⟨tour, htour, hkinds⟩ := tree.exists_tour
  unfold Reaches
  simp [← hkinds, htour.mem_iff]

/-- Only a unit has a unit among its nodes. -/
theorem reaches_unit_iff {tree : Tree} : tree.Reaches .unit ↔ ∃ u, tree = .unit u := by
  have hkind (e : Expr) : e.kind ≠ .unit := by cases e <;> simp [Expr.kind]
  have hexpr (e : Expr) : .unit ∉ e.preorder := by
    unfold Expr.preorder
    simp [hkind]
  rw [← mem_preorder_iff]
  cases tree with
  | unit u => simp [preorder]
  | statement e | expression e => simp [preorder, hexpr]

end Tree

end CppTree
