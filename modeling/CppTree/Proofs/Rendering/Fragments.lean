import CppTree.Proofs.Context
import CppTree.Proofs.Layout.Independence

/-!
# Fragments in place of subtrees

The layout knows a part of an expression by its binding strength, by what ends it as a statement, by
how a lambda takes it as its body, and by its text, but not otherwise.  Expressions that agree on
these can stand for each other anywhere (`Context.alike_fill`).  In particular an expression that
binds as tightly as a literal, and whose text has no line break, can be replaced by its text.  Main
statement: `TreeContext.render_fill_text`.
-/

namespace CppTree

/-! ## Documents that print alike -/

namespace Doc

/-- Whether two documents have the same text at every depth. -/
def Alike (width : Nat) (doc other : Doc) : Prop :=
  ∀ depth, doc.print width depth = other.print width depth

/-- A text without line breaks is the same at all depths. -/
theorem print_eq_of_unbroken {width depth : Nat} {doc : Doc}
    (h : Unbroken (doc.print width depth)) (other : Nat) :
    doc.print width other = doc.print width depth := by
  induction doc generalizing depth other with
  | nil | text => rfl
  | line => exact absurd (by simp) h
  | nest body ih => exact ih h (other + 1)
  | append before after hbefore hafter =>
    rw [Unbroken, print, String.toList_append, List.mem_append, not_or] at h
    rw [print, print, hbefore h.1, hafter h.2]

namespace Alike

variable {width : Nat} {doc other before before' after after' : Doc}

theorem refl (doc : Doc) : Alike width doc doc :=
  fun _ => rfl

theorem append (hbefore : Alike width before before') (hafter : Alike width after after') :
    Alike width (before ++ after) (before' ++ after') :=
  fun depth => by rw [print_append, print_append, hbefore depth, hafter depth]

theorem append_right (h : Alike width doc other) (more : Doc) :
    Alike width (doc ++ more) (other ++ more) :=
  h.append (refl more)

theorem append_left (h : Alike width doc other) (first : Doc) :
    Alike width (first ++ doc) (first ++ other) :=
  (refl first).append h

theorem nest (h : Alike width doc other) : Alike width (.nest doc) (.nest other) :=
  fun depth => h (depth + 1)

theorem parenthesized (h : Alike width doc other) :
    Alike width doc.parenthesized other.parenthesized :=
  (h.append_left "(").append_right ")"

theorem bracketed (h : Alike width doc other) : Alike width doc.bracketed other.bracketed :=
  (h.append_left "[").append_right "]"

theorem braced (h : Alike width doc other) : Alike width doc.braced other.braced :=
  (h.append_left (String.singleton '{')).append_right (String.singleton '}')

theorem operand (h : Alike width doc other) (demand binding : Nat) :
    Alike width (.operand demand binding doc) (.operand demand binding other) := by
  unfold Doc.operand
  split
  · exact h.parenthesized
  · exact h

/-- The blank behind a prefix operator hangs on the first character only, which is the same. -/
theorem prefixed (h : Alike width doc other) (operator : String) :
    Alike width (.prefixed operator doc) (.prefixed operator other) := by
  have hfirst : doc.first? = other.first? := by
    rw [first?_eq_head? width 0, first?_eq_head? width 0, h 0]
  unfold Doc.prefixed
  rw [hfirst]
  split
  · exact h.append_left _
  · exact h.append_left _

theorem lambdaBody (h : Alike width doc other) (kind : Kind) :
    Alike width (.lambdaBody kind doc) (.lambdaBody kind other) := by
  cases kind with
  | block => exact h
  | ret => exact ((h.append_left _).append_right _).braced
  | _ => exact ((h.append_left _).append_right _).braced

theorem joined (h : Alike width doc other) (separator : String) (before after : List Doc) :
    Alike width (.joined separator (before ++ doc :: after))
      (.joined separator (before ++ other :: after)) := by
  induction before with
  | nil =>
    cases after with
    | nil => exact h
    | cons second rest => exact (h.append_right _).append_right _
  | cons first before ih =>
    have hjoined (doc : Doc) : Doc.joined separator (first :: before ++ doc :: after) =
        first ++ separator ++ Doc.joined separator (before ++ doc :: after) := by
      cases before <;> rfl
    rw [hjoined, hjoined]
    exact ih.append_left _

theorem dimensions (h : Alike width doc other) (before after : List Doc) :
    Alike width ((before ++ doc :: after).foldr (fun size rest => size.bracketed ++ rest) .nil)
      ((before ++ other :: after).foldr (fun size rest => size.bracketed ++ rest) .nil) := by
  induction before with
  | nil => exact h.bracketed.append_right _
  | cons size before ih => exact ih.append_left _

end Alike

end Doc

/-! ## Expressions that stand for each other -/

/-- Whether two expressions agree on all that the layout knows of a part. -/
structure Expr.Alike (style : Style) (e other : Expr) : Prop where
  binding : e.binding = other.binding
  terminator : e.kind.terminator = other.kind.terminator
  lambdaBody : ∀ body, Doc.lambdaBody e.kind body = Doc.lambdaBody other.kind body
  doc : Doc.Alike style.indentWidth (e.doc style.lambdaCapture) (other.doc style.lambdaCapture)

namespace Expr.Alike

variable {style : Style} {e other : Expr}

theorem of_doc (hbinding : e.binding = other.binding) (hkind : e.kind = other.kind)
    (hdoc : Doc.Alike style.indentWidth (e.doc style.lambdaCapture)
      (other.doc style.lambdaCapture)) : Alike style e other :=
  ⟨hbinding, congrArg Kind.terminator hkind, fun body => congrArg (Doc.lambdaBody · body) hkind,
    hdoc⟩

theorem operand (h : Alike style e other) (demand : Nat) :
    Doc.Alike style.indentWidth (.operand demand e.binding (e.doc style.lambdaCapture))
      (.operand demand other.binding (other.doc style.lambdaCapture)) := by
  rw [h.binding]
  exact h.doc.operand demand other.binding

theorem lines (h : Alike style e other) (before after : List Expr) :
    Doc.Alike style.indentWidth (Expr.lines style.lambdaCapture (before ++ e :: after))
      (Expr.lines style.lambdaCapture (before ++ other :: after)) := by
  induction before with
  | nil =>
    rw [List.nil_append, List.nil_append, Expr.lines, Expr.lines, h.terminator]
    exact ((h.doc.append_left _).append_right _).append_right _
  | cons first before ih => exact ih.append_left _

end Expr.Alike

/-- What stands alike in a context makes the whole alike. -/
theorem Context.alike_fill {style : Style} {e other : Expr} (h : e.Alike style other)
    (context : Context) : (context.fill e).Alike style (context.fill other) := by
  induction context with
  | hole => exact h
  | assignTarget inner value ih =>
    have htarget := ih.operand Binding.aboveConditional
    exact .of_doc rfl rfl ((htarget.append_right _).append_right _)
  | assignValue target inner ih =>
    have hvalue := ih.operand Binding.assignment
    exact .of_doc rfl rfl (hvalue.append_left _)
  | binaryLeft op inner right ih =>
    have hleft := ih.operand op.leftDemand
    exact .of_doc rfl rfl
      ((((hleft.append_right _).append_right _).append_right _).append_right _)
  | binaryRight op left inner ih =>
    have hright := ih.operand op.rightDemand
    exact .of_doc rfl rfl (hright.append_left _)
  | prefixed op inner ih =>
    have hoperand := ih.operand Binding.unary
    exact .of_doc rfl rfl (hoperand.prefixed op.spelling)
  | suffixed op inner ih =>
    have hoperand := ih.operand Binding.postfixed
    exact .of_doc rfl rfl (hoperand.append_right _)
  | indexBase inner position ih =>
    have hbase := ih.operand Binding.postfixed
    exact .of_doc rfl rfl (hbase.append_right _)
  | indexPosition base inner ih =>
    exact .of_doc rfl rfl (ih.doc.bracketed.append_left _)
  | callCallee inner arguments ih =>
    have hcallee := ih.operand Binding.postfixed
    exact .of_doc rfl rfl (hcallee.append_right _)
  | callArgument callee before inner after ih =>
    refine .of_doc rfl rfl ?_
    simp only [fill, Expr.doc, Expr.docs_eq_map, List.map_append, List.map_cons]
    exact (ih.doc.joined _ _ _).parenthesized.append_left _
  | lambdaBody inner parameters ih =>
    refine .of_doc rfl rfl ?_
    simp only [fill, Expr.doc, ih.lambdaBody]
    exact (ih.doc.lambdaBody _).append_left _
  | lambdaParameter body before inner after ih =>
    refine .of_doc rfl rfl ?_
    simp only [fill, Expr.doc, Expr.docs_eq_map, List.map_append, List.map_cons]
    exact (((ih.doc.joined _ _ _).parenthesized.append_left _).append_right _).append_right _
  | access inner op member ih =>
    have hbase := ih.operand Binding.postfixed
    exact .of_doc rfl rfl ((hbase.append_right _).append_right _)
  | dimension elementType before inner after ih =>
    -- There is at least the dimension with the hole, so round brackets never stand here.
    have hempty (e : Expr) : (before ++ inner.fill e :: after).isEmpty = false := by simp
    refine .of_doc rfl rfl ?_
    simp only [fill, Expr.doc, hempty, Expr.docs_eq_map, List.map_append, List.map_cons]
    exact (ih.doc.dimensions _ _).append_left _
  | conditionalIf inner thenBranch elseBranch ih =>
    have hcondition := ih.operand Binding.aboveConditional
    exact .of_doc rfl rfl
      ((((hcondition.append_right _).append_right _).append_right _).append_right _)
  | conditionalThen condition inner elseBranch ih =>
    have hthen := ih.operand Binding.conditional
    exact .of_doc rfl rfl (((hthen.append_left _).append_right _).append_right _)
  | conditionalElse condition thenBranch inner ih =>
    have helse := ih.operand Binding.conditional
    exact .of_doc rfl rfl (helse.append_left _)
  | element before inner after ih =>
    refine .of_doc rfl rfl ?_
    simp only [fill, Expr.doc, Expr.docs_eq_map, List.map_append, List.map_cons]
    exact (ih.doc.joined _ _ _).parenthesized.append_left _
  | returned inner ih =>
    exact .of_doc rfl rfl (ih.doc.append_left _)
  | blockLine before inner after ih =>
    have hempty (e : Expr) : (before ++ inner.fill e :: after).isEmpty = false := by simp
    refine .of_doc rfl rfl ?_
    simp only [fill, Expr.doc, hempty]
    exact ((ih.lines before after).nest.append_right _).braced

theorem CompilationUnit.alike_doc {style : Style} {e other : Expr} (h : e.Alike style other)
    (before after : List Expr) :
    Doc.Alike style.indentWidth (CompilationUnit.doc style.lambdaCapture ⟨before ++ e :: after⟩)
      (CompilationUnit.doc style.lambdaCapture ⟨before ++ other :: after⟩) := by
  simp only [CompilationUnit.doc]
  induction before with
  | nil =>
    simp only [List.nil_append, List.foldr_cons, h.terminator]
    exact ((h.doc.append_right _).append_right _).append_right _
  | cons first before ih => exact ih.append_left _

theorem TreeContext.alike_doc {style : Style} {e other : Expr} (h : e.Alike style other)
    (context : TreeContext) :
    Doc.Alike style.indentWidth ((context.fill e).doc style.lambdaCapture)
      ((context.fill other).doc style.lambdaCapture) := by
  cases context with
  | unit before inner after => exact CompilationUnit.alike_doc (inner.alike_fill h) before after
  | statement inner | expression inner => exact (inner.alike_fill h).doc

/-! ## Fragments -/

/-- Whether expressions of a kind are laid out everywhere as literals are. -/
def Kind.isFragment : Kind → Bool
  | suffixed | index | call | lambda | access | tuple | literal => true
  | _ => false

/-- An expression in one line is like a literal that holds its text. -/
theorem Expr.alike_literal {style : Style} {e : Expr} (hkind : e.kind.isFragment = true)
    (hline : Unbroken ((Tree.expression e).text style)) :
    e.Alike style (.literal ((Tree.expression e).text style)) := by
  have hdoc : Doc.Alike style.indentWidth (e.doc style.lambdaCapture)
      (.text ((Tree.expression e).text style)) := by
    intro depth
    rw [Tree.text, Renderer.render_eq] at hline ⊢
    exact Doc.print_eq_of_unbroken hline depth
  cases e with
  | suffixed | index | call | lambda | access | tuple | literal =>
    exact ⟨rfl, rfl, fun _ => rfl, hdoc⟩
  | assign | binary | prefixed | allocation | conditional | ret | block => cases hkind

/-- The text of a suffix, index, call, lambda, access, tuple or literal in one line can stand for
it, as a literal, wherever it is: the rendering of the whole stays the same. -/
theorem TreeContext.render_fill_text (renderer : Renderer) (context : TreeContext) (e : Expr)
    (hkind : e.kind.isFragment = true)
    (hline : Unbroken ((Tree.expression e).text renderer.style)) :
    renderer.render (context.fill (.literal ((Tree.expression e).text renderer.style))) =
      renderer.render (context.fill e) := by
  have halike := context.alike_doc (Expr.alike_literal hkind hline) renderer.depth
  rw [Renderer.render_eq, Renderer.render_eq, halike]

/-- The fragment starts with the sign that is put before it, so the blank between them has to come
back. -/
theorem render_fill_text_decrement :
    let fragment : Expr := .suffixed .decrement (.literal "-n")
    let context : TreeContext :=
      .unit [.block []] (.blockLine [.literal "a"] (.prefixed .negate .hole) [.ret none]) []
    fragment.kind.isFragment = true ∧ Unbroken ((Tree.expression fragment).text {}) ∧
      (Renderer.render {} (context.fill (.literal "-n--"))).1 =
        "\n".intercalate ["{}", String.singleton '{', "    a;", "    - -n--;", "    return;",
          String.singleton '}', ""] := by
  intro fragment context
  have hkind : fragment.kind.isFragment = true := rfl
  have hline : Unbroken ((Tree.expression fragment).text {}) := by decide
  have htext : (Tree.expression fragment).text {} = "-n--" := by decide
  have hfill := context.render_fill_text {} fragment hkind hline
  rw [htext] at hfill
  refine ⟨hkind, hline, ?_⟩
  rw [hfill]
  decide

end CppTree
