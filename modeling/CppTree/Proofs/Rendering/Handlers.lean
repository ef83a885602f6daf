import CppTree.Proofs.Layout.Documents

/-!
# Handlers and documents

While a renderer writes an expression, its depth goes up and down with the blocks it enters and
leaves.  Main statements: `Renderer.visit_eq`, at every depth it writes the printed document of the
expression and ends at the depth where it started; and from it `Renderer.render_eq`, the same for
trees.
-/

namespace CppTree

/-! ## Printed documents -/

/-- The separator in front of every text instead of between neighbours. -/
theorem Text.join_map_append (separator : String) {texts : List String}
    (h : texts ≠ []) :
    String.join (texts.map (separator ++ ·)) = separator ++ separator.intercalate texts := by
  induction texts with
  | nil => exact absurd rfl h
  | cons text rest ih =>
    cases rest with
    | nil => simp
    | cons next rest =>
      rw [List.map_cons, String.join_cons, ih (List.cons_ne_nil next rest),
        String.intercalate_cons_cons]
      simp only [String.append_assoc]

namespace Doc

variable (width depth : Nat)

theorem print_parenthesized (body : Doc) :
    body.parenthesized.print width depth = Text.parenthesized (body.print width depth) := rfl

theorem print_bracketed (body : Doc) :
    body.bracketed.print width depth = Text.bracketed (body.print width depth) := rfl

theorem print_braced (body : Doc) :
    body.braced.print width depth = Text.braced (body.print width depth) := rfl

theorem print_operand (demand binding : Nat) (body : Doc) :
    (operand demand binding body).print width depth =
      Text.operand demand binding (body.print width depth) := by
  unfold operand Text.operand
  split <;> rfl

/-- The blank behind a prefix operator is decided alike on the document and on its text. -/
theorem print_prefixed (operator : String) (body : Doc) :
    (Doc.prefixed operator body).print width depth =
      Text.prefixed operator (body.print width depth) := by
  unfold Doc.prefixed Text.prefixed
  rw [String.front?_eq, ← first?_eq_head? width depth body]
  split <;> rfl

theorem print_lambdaBody (kind : Kind) (body : Doc) :
    (lambdaBody kind body).print width depth = Text.lambdaBody kind (body.print width depth) := by
  cases kind <;> rfl

theorem print_joined (separator : String) (docs : List Doc) :
    (joined separator docs).print width depth =
      separator.intercalate (docs.map (print width depth)) := by
  fun_induction joined separator docs with
  | case1 => rfl
  | case2 last => simp
  | case3 first second rest ih =>
    simp [ih, String.intercalate_cons_cons]

theorem print_listed (docs : List Doc) :
    (joined ", " docs).parenthesized.print width depth =
      Text.listed (docs.map (print width depth)) := by
  rw [print_parenthesized, print_joined, Text.listed]

theorem print_dimensions (docs : List Doc) :
    (docs.foldr (fun size rest => size.bracketed ++ rest) nil).print width depth =
      String.join ((docs.map (print width depth)).map Text.bracketed) := by
  induction docs with
  | nil => rfl
  | cons doc docs ih =>
    rw [List.foldr_cons, print_append, ih, print_bracketed]
    simp

theorem print_lines (capture : String) (statements : List Expr) :
    (Expr.lines capture statements).print width depth =
      String.join (statements.map fun e =>
        line.print width depth ++ (e.doc capture).print width depth ++ e.kind.terminator) := by
  induction statements with
  | nil => rfl
  | cons e es ih =>
    rw [Expr.lines, print_append, print_append, print_append, print_text, ih, List.map_cons,
      String.join_cons]

end Doc

/-! ## What the handlers do -/

namespace Renderer

section
variable {α β : Type} (renderer : Renderer)

theorem bind_apply (action : StateM Renderer α) (next : α → StateM Renderer β) :
    (action >>= next) renderer = next (action renderer).1 (action renderer).2 := rfl

theorem pure_apply (a : α) : (pure a : StateM Renderer α) renderer = (a, renderer) := rfl

theorem get_apply : (get : StateM Renderer Renderer) renderer = (renderer, renderer) := rfl

/-- A renderer one level deeper. -/
def deeper : Renderer :=
  { renderer with depth := renderer.depth + 1 }

theorem enter_apply : enter renderer = ((), renderer.deeper) := rfl

theorem leave_deeper : leave renderer.deeper = ((), renderer) := rfl

end

/-- The document of an expression as a renderer prints it. -/
def printed (renderer : Renderer) (e : Expr) : String :=
  (e.doc renderer.style.lambdaCapture).print renderer.style.indentWidth renderer.depth

/-- A statement as a line at the current depth. -/
def printedLine (renderer : Renderer) (e : Expr) : String :=
  renderer.indentation ++ printed renderer e ++ e.kind.terminator

/-- At every depth the text written for an expression is its printed document, and the renderer is
given back at the depth where it was. -/
def Writes (e : Expr) : Prop :=
  ∀ renderer : Renderer, visit e renderer = (printed renderer e, renderer)

variable {es : List Expr}

theorem visitAll_eq (h : ∀ e ∈ es, Writes e) (renderer : Renderer) :
    visitAll es renderer = (es.map (printed renderer), renderer) := by
  induction es with
  | nil => rfl
  | cons e es ih =>
    have hrest := ih fun d hd => h d (List.mem_cons_of_mem e hd)
    simp only [visitAll, bind_apply, pure_apply, h e List.mem_cons_self renderer, hrest,
      List.map_cons]

theorem map_print_docs (renderer : Renderer) (es : List Expr) :
    (Expr.docs renderer.style.lambdaCapture es).map
        (Doc.print renderer.style.indentWidth renderer.depth) = es.map (printed renderer) := by
  rw [Expr.docs_eq_map, List.map_map]
  rfl

theorem visitLines_eq (h : ∀ e ∈ es, Writes e) (renderer : Renderer) :
    visitLines es renderer = (es.map (printedLine renderer), renderer) := by
  induction es with
  | nil => rfl
  | cons e es ih =>
    have hrest := ih fun d hd => h d (List.mem_cons_of_mem e hd)
    simp only [visitLines, bind_apply, pure_apply, get_apply, h e List.mem_cons_self renderer,
      hrest, List.map_cons, printedLine]

/-- The start of a line is a line break and the blanks of its depth. -/
theorem print_line_eq (renderer : Renderer) :
    Doc.line.print renderer.style.indentWidth renderer.depth = "\n" ++ renderer.indentation := by
  apply String.toList_injective
  simp [indentation, String.toList_append, Doc.toList_pushn]

/-- The lines of a block as one text: every line starts with its line break. -/
theorem printed_block (renderer : Renderer) {statements : List Expr} (hne : statements ≠ []) :
    printed renderer (.block statements) = Text.braced ("\n" ++
      "\n".intercalate (statements.map (printedLine renderer.deeper)) ++ "\n" ++
        renderer.indentation) := by
  have hline (e : Expr) : Doc.line.print renderer.style.indentWidth (renderer.depth + 1) ++
      printed renderer.deeper e ++ e.kind.terminator = "\n" ++ printedLine renderer.deeper e := by
    have hstart := print_line_eq renderer.deeper
    rw [printedLine, ← String.append_assoc, ← String.append_assoc, ← hstart]
    rfl
  have hlines : (Expr.lines renderer.style.lambdaCapture statements).print
      renderer.style.indentWidth (renderer.depth + 1) =
        "\n" ++ "\n".intercalate (statements.map (printedLine renderer.deeper)) := by
    rw [Doc.print_lines, ← Text.join_map_append "\n" (by simpa using hne), List.map_map]
    exact congrArg String.join (List.map_congr_left fun e _ => hline e)
  have hempty : statements.isEmpty = false := by simpa using hne
  simp only [printed, Expr.doc, hempty, Bool.false_eq_true, if_false, Doc.print_braced,
    Doc.print_append, Doc.print_nest, hlines, print_line_eq, String.append_assoc]

/-- The statements of a block stand one level deeper, and the renderer is back at its level behind
them. -/
theorem writes_block {statements : List Expr} (h : ∀ e ∈ statements, Writes e) :
    Writes (.block statements) := by
  intro renderer
  by_cases hstatements : statements = []
  · -- The early return: the renderer enters nothing.
    have hpair : Text.braced "" = "{}" := by decide
    rw [hstatements]
    show ("{}", renderer) = (Text.braced "", renderer)
    rw [hpair]
  · have hempty : statements.isEmpty = false := by simpa using hstatements
    have hlines := visitLines_eq h renderer.deeper
    simp only [visit, hempty, Bool.false_eq_true, if_false, bind_apply, pure_apply, get_apply,
      enter_apply, hlines, leave_deeper, printed_block renderer hstatements]

theorem writes_allocation (elementType : TypeName) {dimensions : List Expr}
    (h : ∀ e ∈ dimensions, Writes e) : Writes (.allocation elementType dimensions) := by
  intro renderer
  cases dimensions with
  | nil => rfl
  | cons size sizes =>
    simp only [visit, List.isEmpty_cons, Bool.false_eq_true, if_false, bind_apply, pure_apply,
      visitAll_eq h renderer]
    simp only [printed, Expr.doc, List.isEmpty_cons, Bool.false_eq_true, if_false, Doc.print_append,
      Doc.print_text, Doc.print_dimensions, map_print_docs]

/-- A renderer writes every expression as its document, whatever depth it is at, and all its
entering and leaving of blocks brings it back to that depth. -/
theorem visit_eq (e : Expr) (renderer : Renderer) :
    visit e renderer = (printed renderer e, renderer) := by
  suffices h : Writes e from h renderer
  -- Each part is written by a renderer that the parts before it have given back as it was; only the
  -- statements of a block are written by a deeper one.
  induction e using Expr.induct with
  | assign target value htarget hvalue =>
    intro renderer
    simp only [visit, bind_apply, pure_apply, htarget renderer, hvalue renderer]
    simp [printed, Expr.doc, Doc.print_operand]
  | binary op left right hleft hright =>
    intro renderer
    simp only [visit, bind_apply, pure_apply, hleft renderer, hright renderer]
    simp [printed, Expr.doc, Doc.print_operand]
  | prefixed op operand hoperand =>
    intro renderer
    simp only [visit, bind_apply, pure_apply, hoperand renderer]
    simp [printed, Expr.doc, Doc.print_prefixed, Doc.print_operand]
  | suffixed op operand hoperand =>
    intro renderer
    simp only [visit, bind_apply, pure_apply, hoperand renderer]
    simp [printed, Expr.doc, Doc.print_operand]
  | index base position hbase hposition =>
    intro renderer
    simp only [visit, bind_apply, pure_apply, hbase renderer, hposition renderer]
    simp [printed, Expr.doc, Doc.print_operand, Doc.print_bracketed]
  | call callee arguments hcallee harguments =>
    intro renderer
    simp only [visit, bind_apply, pure_apply, hcallee renderer, visitAll_eq harguments renderer]
    simp only [printed, Expr.doc, Doc.print_append, Doc.print_operand, Doc.print_listed,
      map_print_docs]
  | lambda body parameters hbody hparameters =>
    intro renderer
    simp only [visit, bind_apply, pure_apply, get_apply, hbody renderer,
      visitAll_eq hparameters renderer]
    simp only [printed, Expr.doc, Doc.print_append, Doc.print_text, Doc.print_bracketed,
      Doc.print_listed, Doc.print_lambdaBody, map_print_docs]
  | access base op member hbase =>
    intro renderer
    simp only [visit, bind_apply, pure_apply, hbase renderer]
    simp [printed, Expr.doc, Doc.print_operand]
  | allocation elementType dimensions hdimensions => exact writes_allocation elementType hdimensions
  | conditional condition thenBranch elseBranch hcondition hthen helse =>
    intro renderer
    simp only [visit, bind_apply, pure_apply, hcondition renderer, hthen renderer, helse renderer]
    simp [printed, Expr.doc, Doc.print_operand]
  | tuple elements helements =>
    intro renderer
    simp only [visit, bind_apply, pure_apply, visitAll_eq helements renderer]
    simp only [printed, Expr.doc, Doc.print_append, Doc.print_text, Doc.print_listed,
      map_print_docs]
  | ret value hvalue =>
    intro renderer
    cases value with
    | none => rfl
    | some value =>
      simp only [visit, bind_apply, pure_apply, hvalue value rfl renderer]
      rfl
  | block statements hstatements => exact writes_block hstatements
  | literal text => exact fun _ => rfl

/-! ## Whole trees -/

theorem visitUnit_eq (statements : List Expr) (renderer : Renderer) :
    visitUnit statements renderer =
      ((CompilationUnit.doc renderer.style.lambdaCapture ⟨statements⟩).print
        renderer.style.indentWidth renderer.depth, renderer) := by
  induction statements with
  | nil => rfl
  | cons e es ih =>
    simp only [visitUnit, bind_apply, pure_apply, visit_eq, ih]
    rfl

/-- A rendering depends on the tree, the style and the depth only, and leaves the renderer as it
was. -/
theorem render_eq (renderer : Renderer) (tree : Tree) :
    renderer.render tree =
      ((tree.doc renderer.style.lambdaCapture).print renderer.style.indentWidth renderer.depth,
        renderer) := by
  cases tree with
  | unit u => exact visitUnit_eq u.statements renderer
  | statement e | expression e => exact visit_eq e renderer

end Renderer

theorem Tree.text_eq_print (style : Style) (tree : Tree) :
    tree.text style = (tree.doc style.lambdaCapture).print style.indentWidth 0 := by
  rw [text, Renderer.render_eq]

end CppTree
