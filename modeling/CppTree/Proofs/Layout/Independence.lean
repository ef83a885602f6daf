import CppTree.Proofs.Layout.Blocks
import CppTree.Proofs.Names

/-!
# Layout and indentation

The lines of a tree do not depend on the indentation or on where the tree is rendered; these only
decide how many blanks stand before each line.
-/

namespace CppTree

/-- Whether a text has no line breaks. -/
def Unbroken (text : String) : Prop :=
  '\n' ∉ text.toList

instance (text : String) : Decidable (Unbroken text) :=
  inferInstanceAs (Decidable ('\n' ∉ text.toList))

theorem spelled_unbroken : Doc.Spelled Unbroken where
  fixed := by decide
  binary op := by cases op <;> decide
  prefixed op := by cases op <;> decide
  suffixed op := by cases op <;> decide
  access op := by cases op <;> decide
  member name hbreak := absurd (isNameChar_of_isIdentifier name.wellSpelled hbreak) (by decide)
  elementType name hbreak := absurd (isTypeChar_of_isTypeName name.wellSpelled hbreak) (by decide)

theorem Doc.Built.unbroken_of_mem {doc : Doc} (h : doc.Built Unbroken) (level : Nat)
    {content : String} (hcontent : .text content ∈ doc.pieces level) : Unbroken content := by
  have hbracket : ∀ s ∈ ["(", ")", "[", "]", String.singleton '{', String.singleton '}'],
      Unbroken s := by decide
  induction h generalizing level with
  | nil | line => simp at hcontent
  | text htext =>
    rw [pieces_text, List.mem_singleton, Piece.text.injEq] at hcontent
    rwa [hcontent]
  | append _ _ hbefore hafter =>
    rw [pieces_append, List.mem_append] at hcontent
    exact hcontent.elim (hbefore level) (hafter level)
  | nest _ ih =>
    -- The texts of nested lines are the same at every level.
    exact ih (level + 1) (by simpa using hcontent)
  | parenthesized _ ih | bracketed _ ih | braced _ ih =>
    simp only [Doc.parenthesized, Doc.bracketed, Doc.braced, pieces_append, pieces_text,
      List.mem_append, List.mem_singleton, Piece.text.injEq] at hcontent
    rcases hcontent with (rfl | hcontent) | rfl
    · exact hbracket _ (by simp)
    · exact ih level hcontent
    · exact hbracket _ (by simp)

/-! ## Rendered lines -/

theorem Tree.unbroken_lines {capture : String} (hcapture : Unbroken capture) (tree : Tree)
    (h : ∀ text, Expr.literal text ∈ tree.nodes → Unbroken text) :
    ∀ line ∈ tree.lines capture, Unbroken line.text := by
  refine Piece.newline_not_mem_lines (by decide) fun content hcontent => ?_
  have hexpr (e : Expr) (he : ∀ x ∈ e.nodes, x ∈ tree.nodes)
      (hmem : .text content ∈ (e.doc capture).pieces 0) : Unbroken content :=
    (e.built spelled_unbroken hcapture fun x hx text htext =>
      h text (htext ▸ he x hx)).unbroken_of_mem 0 hmem
  cases tree with
  | unit u =>
    obtain ⟨e, he, hmem⟩ := List.mem_flatMap.mp hcontent
    rcases List.mem_append.mp hmem with hmem | hmem
    · exact hexpr e (fun x hx => List.mem_flatMap.mpr ⟨e, he, hx⟩) hmem
    · exact (spelled_unbroken.terminator e.kind).unbroken_of_mem 0 (by simpa using hmem)
  | statement e | expression e => exact hexpr e (by simp [nodes, tops]) hcontent

/-- The text of a unit that is rendered outermost. -/
theorem CompilationUnit.toList_print (width : Nat) (capture : String) (statements : List Expr) :
    ((CompilationUnit.doc capture ⟨statements⟩).print width 0).toList =
      (CompilationUnit.pieces capture ⟨statements⟩).flatMap (Piece.written width 0) := by
  unfold doc pieces
  induction statements with
  | nil => rfl
  | cons e es ih =>
    have he := Doc.toList_print width 0 (e.doc capture) 0
    rw [Nat.zero_add] at he
    simp [String.toList_append, he, ih, Piece.written]

/-- A rendering is the lines of the tree, with blanks for the depth and the level of each. -/
theorem Tree.render_eq_written (tree : Tree) (renderer : Renderer)
    (hunit : tree.kind = .unit → renderer.depth = 0) :
    (renderer.render tree).1.toList = Line.written renderer.style.indentWidth renderer.depth
      (tree.lines renderer.style.lambdaCapture) := by
  rw [Renderer.render_eq, lines, Piece.written_lines]
  cases tree with
  | unit u =>
    rw [hunit rfl]
    exact CompilationUnit.toList_print renderer.style.indentWidth _ u.statements
  | statement e | expression e =>
    exact Doc.toList_print renderer.style.indentWidth renderer.depth _ 0

theorem Tree.lines_eq_cons (capture : String) (tree : Tree) :
    ∃ first further, tree.lines capture = ⟨0, first⟩ :: further := by
  obtain ⟨text, rest, h⟩ := Piece.lines_eq_cons 0 (tree.pieces capture)
  exact ⟨"" ++ text, rest, h ""⟩

theorem Expr.statementLines_eq_cons (capture : String) (level : Nat) (e : Expr) :
    ∃ first further, e.statementLines capture level = ⟨level, first⟩ :: further := by
  obtain ⟨first, further, h⟩ := (Tree.statement e).lines_eq_cons capture
  rw [statementLines, h]
  cases further with
  | nil => exact ⟨_, _, rfl⟩
  | cons line rest => exact ⟨_, _, rfl⟩

/-- The layout of a tree.  A tree has lines with levels; a rendering at any depth and with any width
writes them with blanks in front, and a deeper rendering is an outer one with more blanks.  Where a
block stands, its brackets are on lines of one level and its statements start lines one level
deeper, and nothing else in the lines depends on the statements. -/
theorem Tree.layout (capture : String) (hcapture : Unbroken capture) (tree : Tree)
    (htexts : ∀ text, Expr.literal text ∈ tree.nodes → Unbroken text) :
    (∃ first further, tree.lines capture = ⟨0, first⟩ :: further) ∧
      (∀ line ∈ tree.lines capture, Unbroken line.text) ∧
      (∀ renderer : Renderer, renderer.style.lambdaCapture = capture →
        (tree.kind = .unit → renderer.depth = 0) →
          (renderer.render tree).1.toList =
            Line.written renderer.style.indentWidth renderer.depth (tree.lines capture) ∧
          (tree.kind ≠ .unit → (renderer.render tree).1.toList =
            indented (renderer.style.indentWidth * renderer.depth)
              (Renderer.render ⟨renderer.style, 0⟩ tree).1.toList)) ∧
      ∀ (context : TreeContext) (statements : List Expr),
        tree = context.fill (.block statements) → statements ≠ [] →
          ∃ before level head tail after,
            tree.lines capture =
              before ++ ⟨level, head ++ String.singleton '{'⟩ ::
                (statements.flatMap (Expr.statementLines capture (level + 1)) ++
                  ⟨level, String.singleton '}' ++ tail⟩ :: after) ∧
            (∀ e ∈ statements, ∃ first further,
              e.statementLines capture (level + 1) = ⟨level + 1, first⟩ :: further) ∧
            (context.fill (.block [])).lines capture =
              before ++ ⟨level, head ++ "{}" ++ tail⟩ :: after := by
  have hunbroken := tree.unbroken_lines hcapture htexts
  refine ⟨tree.lines_eq_cons capture, hunbroken, ?_, ?_⟩
  · rintro renderer rfl hunit
    -- Neither the width nor the depth changes the lines, only the blanks before them.
    refine ⟨tree.render_eq_written renderer hunit, fun _ => ?_⟩
    rw [tree.render_eq_written renderer hunit, tree.render_eq_written _ fun _ => rfl,
      Line.written_eq_indented _ _ hunbroken]
  · rintro context statements rfl hne
    obtain ⟨before, level, head, tail, after, hempty, hlines⟩ :=
      (context.placed capture).lines
    exact ⟨before, level, head, tail, after, hlines statements hne,
      fun e _ => e.statementLines_eq_cons capture (level + 1), hempty⟩

def nestedBlocks : Tree :=
  .statement <| .call (.literal "f")
    [.lambda (.block [.block [.literal "x"], .ret none]) [], .literal "y"]

/-- The lines of two blocks, one in the other, and the blanks that three levels of depth add. -/
theorem layout_nestedBlocks :
    Unbroken "&" ∧ (∀ text, Expr.literal text ∈ nestedBlocks.nodes → Unbroken text) ∧
      nestedBlocks.lines "&" =
        [⟨0, "f([&]() " ++ String.singleton '{'⟩, ⟨1, String.singleton '{'⟩, ⟨2, "x;"⟩,
         ⟨1, String.singleton '}'⟩, ⟨1, "return;"⟩, ⟨0, String.singleton '}' ++ ", y)"⟩] ∧
      (Renderer.render ⟨{ indentWidth := 2 }, 3⟩ nestedBlocks).1.toList =
        indented 6 (Renderer.render ⟨{ indentWidth := 2 }, 0⟩ nestedBlocks).1.toList := by
  have htexts : ∀ text, Expr.literal text ∈ nestedBlocks.nodes → Unbroken text := by
    intro text htext
    have hnames : text = "f" ∨ text = "x" ∨ text = "y" := by
      simpa [nestedBlocks, Tree.nodes, Tree.tops, Expr.nodes] using htext
    rcases hnames with rfl | rfl | rfl <;> decide
  have hlayout := Tree.layout "&" (by decide) nestedBlocks htexts
  have hdeeper := (hlayout.2.2.1 ⟨{ indentWidth := 2 }, 3⟩ rfl (fun h => by cases h)).2
    (fun h => by cases h)
  exact ⟨by decide, htexts, by decide, hdeeper⟩

end CppTree
