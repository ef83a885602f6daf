import CppTree.Proofs.Rendering.Handlers

/-!
# Renderings in sequence

One renderer may render any number of trees one after another.  Every handler gives the renderer
back at the depth at which it got it, so each tree starts where the first one started, no text
depends on what was rendered before, and the text of a unit is made of the texts of its statements.
Main statement: `Renderer.renderings_independent`.
-/

namespace CppTree

/-- Renders trees one after another with the same renderer.  Each text comes with the renderer as
the rendering left it. -/
def Renderer.renderAll : List Tree → Renderer → List (String × Renderer)
  | [], _ => []
  | tree :: trees, renderer =>
    renderer.render tree :: renderAll trees (renderer.render tree).2

/-- A handler may enter blocks on the way, but ends at the depth where it started. -/
theorem Renderer.visit_snd (e : Expr) (renderer : Renderer) : (visit e renderer).2 = renderer := by
  rw [visit_eq]

theorem Renderer.render_snd (renderer : Renderer) (tree : Tree) :
    (renderer.render tree).2 = renderer := by
  rw [render_eq]

/-- Rendering in sequence gives every tree the text that it has as the only one, and every rendering
leaves the renderer as it was. -/
theorem Renderer.renderAll_eq_map (trees : List Tree) (renderer : Renderer) :
    renderAll trees renderer = trees.map fun tree => ((renderer.render tree).1, renderer) := by
  induction trees with
  | nil => rfl
  | cons tree trees ih =>
    have hafter := renderer.render_snd tree
    rw [renderAll, hafter, ih, List.map_cons]
    exact congrArg (· :: _) (Prod.ext rfl hafter)

/-! ## Units -/

/-- A statement of a unit on its line: its text as the only tree, its terminator, the line end. -/
def Expr.unitLine (style : Style) (e : Expr) : String :=
  (Tree.statement e).text style ++ e.kind.terminator ++ "\n"

/-- A unit is written as the lines of its statements, each of which starts where the renderer was at
the start of the unit. -/
theorem Renderer.visitUnit_fst (statements : List Expr) (renderer : Renderer) :
    (visitUnit statements renderer).1 = String.join (statements.map fun e =>
      (visit e renderer).1 ++ e.kind.terminator ++ "\n") := by
  induction statements with
  | nil => rfl
  | cons e es ih =>
    simp only [visitUnit, bind_apply, pure_apply, visit_snd, ih, List.map_cons, String.join_cons]

/-- The text of a unit is that of its lines, each rendered on its own. -/
theorem CompilationUnit.text_eq_join (style : Style) (statements : List Expr) :
    (Tree.unit ⟨statements⟩).text style = String.join (statements.map (Expr.unitLine style)) :=
  Renderer.visitUnit_fst statements ⟨style, 0⟩

/-- A renderer carries nothing over.  Whatever depth it is at, writing an expression brings it back
to that depth.  So in a sequence of renderings every text is the one that a new renderer gives for
the tree alone, and the depth is zero again after each; in a unit every statement has the text it
has alone, and units that follow each other have the text of the unit of all their statements. -/
theorem Renderer.renderings_independent (style : Style) :
    (∀ (e : Expr) (depth : Nat), (visit e ⟨style, depth⟩).2 = ⟨style, depth⟩) ∧
    (∀ trees : List Tree, renderAll trees ⟨style, 0⟩ =
      trees.map fun tree => (tree.text style, ⟨style, 0⟩)) ∧
    (∀ statements : List Expr, (Tree.unit ⟨statements⟩).text style =
      String.join (statements.map fun e =>
        (Tree.statement e).text style ++ (if e.kind = .block then "" else ";") ++ "\n")) ∧
    ∀ before after : List Expr, (Tree.unit ⟨before ++ after⟩).text style =
      (Tree.unit ⟨before⟩).text style ++ (Tree.unit ⟨after⟩).text style := by
  refine ⟨fun e depth => visit_snd e _, fun trees => renderAll_eq_map trees _,
    fun statements => ?_, fun before after => ?_⟩
  · rw [CompilationUnit.text_eq_join]
    congr 2
    funext e
    rw [Expr.unitLine, Kind.terminator_eq]
  · simp only [CompilationUnit.text_eq_join, List.map_append, String.join_append]

end CppTree
