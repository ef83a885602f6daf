import CppTree.Proofs.Context
import CppTree.Proofs.Layout.Built
import CppTree.Proofs.Layout.Lines

/-!
# Where blocks stand

Wherever a block stands in a tree, its brackets are on lines of one level and its statements on lines
one level deeper.
-/

namespace CppTree

variable {capture : String}

/-! ## Levels -/

namespace Piece

theorem lastLevel_append (level : Nat) (ps qs : List Piece) :
    lastLevel level (ps ++ qs) = lastLevel (lastLevel level ps) qs := by
  induction ps generalizing level with
  | nil => rfl
  | cons p ps ih => cases p <;> exact ih _

theorem lines_eq_append (level : Nat) (begun : String) (ps : List Piece) :
    ∃ before head, lines level begun ps = before ++ [⟨lastLevel level ps, head⟩] := by
  induction ps generalizing level begun with
  | nil => exact ⟨[], begun, rfl⟩
  | cons p ps ih =>
    cases p with
    | text content => exact ih level (begun ++ content)
    | newline next =>
      obtain ⟨before, head, h⟩ := ih next ""
      exact ⟨⟨level, begun⟩ :: before, head, by rw [lines, h, lastLevel, List.cons_append]⟩

end Piece

theorem Doc.Built.lastLevel_pieces {isText : String → Prop} {doc : Doc} (h : doc.Built isText)
    (level : Nat) : Piece.lastLevel level (doc.pieces level) = level := by
  induction h generalizing level with
  | nil | text | line => rfl
  | append _ _ hbefore hafter =>
    rw [pieces_append, Piece.lastLevel_append, hbefore, hafter]
  | parenthesized _ ih | bracketed _ ih | braced _ ih =>
    show Piece.lastLevel level ([.text _] ++ _ ++ [.text _]) = level
    rw [Piece.lastLevel_append, Piece.lastLevel_append]
    exact ih level
  | nest =>
    rw [pieces_append, Piece.lastLevel_append]
    rfl

theorem Doc.spelled_true : Doc.Spelled fun _ => True := by
  constructor <;> simp

theorem Expr.built_true (capture : String) (e : Expr) : (e.doc capture).Built fun _ => True :=
  e.built Doc.spelled_true trivial fun _ _ _ _ => trivial

theorem Expr.lastLevel_docs (capture : String) (es : List Expr) (level : Nat) :
    ∀ doc ∈ es.map (Expr.doc capture), Piece.lastLevel level (doc.pieces level) = level := by
  intro doc hdoc
  obtain ⟨e, -, rfl⟩ := List.mem_map.mp hdoc
  exact (e.built_true capture).lastLevel_pieces level

/-! ## The pieces of a block -/

/-- The pieces of a statement of a block: the start of a line, and the statement with what ends
it. -/
def Expr.linePieces (capture : String) (level : Nat) (e : Expr) : List Piece :=
  .newline level :: ((e.doc capture).pieces level ++ [.text e.kind.terminator])

theorem Expr.pieces_lines (es : List Expr) (level : Nat) :
    (Expr.lines capture es).pieces level = es.flatMap (Expr.linePieces capture level) := by
  induction es with
  | nil => rfl
  | cons e es ih =>
    simp [lines, linePieces, ih]

theorem Expr.pieces_block {statements : List Expr} (h : statements ≠ []) (level : Nat) :
    ((Expr.block statements).doc capture).pieces level =
      .text (String.singleton '{') :: (statements.flatMap (Expr.linePieces capture (level + 1)) ++
        [.newline level, .text (String.singleton '}')]) := by
  have hempty : statements.isEmpty = false := by simpa using h
  simp [doc, hempty, Doc.braced, pieces_lines]

/-- The lines of a statement at a level, with what ends the statement. -/
def Expr.statementLines (capture : String) (level : Nat) (e : Expr) : List Line :=
  (Line.ended e.kind.terminator ((Tree.statement e).lines capture)).map (Line.raise level)

theorem Expr.lines_linePieces (e : Expr) (level : Nat) :
    Piece.lines level "" ((e.doc capture).pieces level ++ [.text e.kind.terminator]) =
      e.statementLines capture level := by
  have hraise := Piece.lines_raise level 0 "" ((e.doc capture).pieces 0)
  rw [← Doc.pieces_add, Nat.add_zero] at hraise
  rw [Piece.lines_append_text, hraise, Line.ended_raise]
  rfl

theorem Expr.lines_flatMap_linePieces (capture : String) (es : List Expr)
    (inner outer level : Nat) (begun : String) (ps qs : List Piece) :
    Piece.lines level begun (ps ++ (es.flatMap (Expr.linePieces capture inner) ++
      .newline outer :: qs)) =
        Piece.lines level begun ps ++ es.flatMap (Expr.statementLines capture inner) ++
          Piece.lines outer "" qs := by
  induction es generalizing level begun ps with
  | nil => simp [Piece.lines_append_newline]
  | cons e es ih =>
    rw [List.flatMap_cons, linePieces, List.cons_append, List.cons_append,
      Piece.lines_append_newline, List.append_assoc _ (es.flatMap _), ih, lines_linePieces,
      List.flatMap_cons]
    simp

/-! ## A block in its surroundings -/

/-- Whether pieces that depend on the statements of a block are those of the block, between pieces
that do not, and start at the level of the line on which they come. -/
def Placed (capture : String) (level : Nat) (pieces : List Expr → List Piece) : Prop :=
  ∃ before after, ∀ statements, pieces statements =
    before ++ ((Expr.block statements).doc capture).pieces (Piece.lastLevel level before) ++ after

namespace Placed

variable {level : Nat} {pieces : List Expr → List Piece} {docs : List Expr → Doc}

theorem congr {others : List Expr → List Piece} (h : Placed capture level pieces)
    (hothers : ∀ statements, others statements = pieces statements) :
    Placed capture level others := by
  rwa [funext hothers]

theorem append_right (h : Placed capture level pieces) (more : List Piece) :
    Placed capture level fun statements => pieces statements ++ more := by
  obtain ⟨before, after, h⟩ := h
  refine ⟨before, after ++ more, fun statements => ?_⟩
  show pieces statements ++ more = _
  rw [h, List.append_assoc _ after]

theorem append_left {next : Nat} (h : Placed capture next pieces) (first : List Piece)
    (hfirst : Piece.lastLevel level first = next) :
    Placed capture level fun statements => first ++ pieces statements := by
  obtain ⟨before, after, h⟩ := h
  refine ⟨first ++ before, after, fun statements => ?_⟩
  show first ++ pieces statements = _
  rw [h, Piece.lastLevel_append, hfirst, List.append_assoc, List.append_assoc, List.append_assoc]

theorem behind {isText : String → Prop} (h : Placed capture level pieces) {doc : Doc}
    (hdoc : doc.Built isText) :
    Placed capture level fun statements => doc.pieces level ++ pieces statements :=
  h.append_left _ (hdoc.lastLevel_pieces level)

theorem parenthesized (h : Placed capture level fun statements => (docs statements).pieces level) :
    Placed capture level fun statements => (docs statements).parenthesized.pieces level :=
  (h.append_left [.text "("] rfl).append_right [.text ")"]

theorem bracketed (h : Placed capture level fun statements => (docs statements).pieces level) :
    Placed capture level fun statements => (docs statements).bracketed.pieces level :=
  (h.append_left [.text "["] rfl).append_right [.text "]"]

theorem first? (h : Placed capture level fun statements => (docs statements).pieces level)
    (statements : List Expr) : (docs statements).first? = (docs []).first? := by
  obtain ⟨before, after, h⟩ := h
  -- The first character stands before the block, or else it is the opening bracket.
  have hhead (statements : List Expr) : (docs statements).first? =
      (before.flatMap (Piece.written 0 0) ++ ['{']).head? := by
    have hopen : ∃ rest, ((Expr.block statements).doc capture).pieces
        (Piece.lastLevel level before) = .text (String.singleton '{') :: rest := by
      rw [Expr.doc]
      exact ⟨_, rfl⟩
    obtain ⟨rest, hrest⟩ := hopen
    have hpieces : (docs statements).pieces level = _ := h statements
    rw [Doc.first?_eq_head? 0 (0 + level), Doc.toList_print, hpieces, hrest]
    simp [Piece.written, List.head?_append]
  rw [hhead, hhead]

theorem operand {binding : List Expr → Nat}
    (hbinding : ∀ statements, binding statements = binding [])
    (h : Placed capture level fun statements => (docs statements).pieces level) (demand : Nat) :
    Placed capture level fun statements =>
      (Doc.operand demand (binding statements) (docs statements)).pieces level := by
  -- Whether there are brackets does not depend on the statements.
  simp only [Doc.operand, hbinding]
  split
  · exact h.parenthesized
  · exact h

theorem joined (h : Placed capture level fun statements => (docs statements).pieces level)
    (separator : String) {before : List Doc}
    (hbefore : ∀ doc ∈ before, Piece.lastLevel level (doc.pieces level) = level) (after : List Doc) :
    Placed capture level fun statements =>
      (Doc.joined separator (before ++ docs statements :: after)).pieces level := by
  induction before with
  | nil =>
    cases after with
    | nil => exact h
    | cons second rest =>
      exact (h.append_right [.text separator]).append_right _
  | cons doc before ih =>
    have hrest := ih fun other hother => hbefore other (by simp [hother])
    have hdoc := hbefore doc (by simp)
    have hjoined (statements : List Expr) :
        (Doc.joined separator (doc :: before ++ docs statements :: after)).pieces level =
          (doc.pieces level ++ [.text separator]) ++
            (Doc.joined separator (before ++ docs statements :: after)).pieces level := by
      cases before <;> rfl
    simp only [hjoined]
    apply hrest.append_left _
    rw [Piece.lastLevel_append, hdoc]
    rfl

theorem dimensions (h : Placed capture level fun statements => (docs statements).pieces level)
    {before : List Doc}
    (hbefore : ∀ doc ∈ before, Piece.lastLevel level (doc.pieces level) = level) (after : List Doc) :
    Placed capture level fun statements =>
      Doc.pieces level <| (before ++ docs statements :: after).foldr
        (fun size rest => size.bracketed ++ rest) Doc.nil := by
  induction before with
  | nil =>
    exact h.bracketed.append_right _
  | cons doc before ih =>
    have hrest := ih fun other hother => hbefore other (by simp [hother])
    apply hrest.append_left (doc.bracketed.pieces level)
    show Piece.lastLevel level ([.text "["] ++ doc.pieces level ++ [.text "]"]) = level
    rw [Piece.lastLevel_append, Piece.lastLevel_append]
    exact hbefore doc (by simp)

theorem lambdaBody {kind : List Expr → Kind} (hkind : ∀ statements, kind statements = kind [])
    (h : Placed capture level fun statements => (docs statements).pieces level) :
    Placed capture level fun statements =>
      (Doc.lambdaBody (kind statements) (docs statements)).pieces level := by
  simp only [hkind]
  have hbraced (before : String) : Placed capture level fun statements =>
      (Doc.braced (.text before ++ docs statements ++ .text "; ")).pieces level :=
    (((h.append_left [.text before] rfl).append_right [.text "; "]).append_left
      [.text (String.singleton '{')] rfl).append_right [.text (String.singleton '}')]
  cases kind [] with
  | block => exact h
  | ret => exact hbraced " "
  | _ => exact hbraced " return "

end Placed

/-- Only the hole itself shows what is in it, and all blocks bind alike. -/
theorem Context.binding_fill_block (context : Context) (statements : List Expr) :
    (context.fill (.block statements)).binding = (context.fill (.block [])).binding := by
  cases context <;> rfl

theorem Context.kind_fill_block (context : Context) (statements : List Expr) :
    (context.fill (.block statements)).kind = (context.fill (.block [])).kind := by
  cases context <;> rfl

/-- Wherever a block stands in an expression, the rest does not depend on its statements. -/
theorem Context.placed (capture : String) (context : Context) (level : Nat) :
    Placed capture level fun statements =>
      ((context.fill (.block statements)).doc capture).pieces level := by
  -- By induction on the context.  What stands before the hole comes back to the level where it
  -- starts, except within a block, whose lines are one level deeper.
  induction context generalizing level with
  | hole => exact ⟨[], [], fun statements => by simp [fill, Piece.lastLevel]⟩
  | assignTarget inner value ih =>
    have htarget := (ih level).operand inner.binding_fill_block Binding.aboveConditional
    simp only [fill, Expr.doc, Doc.pieces_append]
    exact (htarget.append_right _).append_right _
  | assignValue target inner ih =>
    have hvalue := (ih level).operand inner.binding_fill_block Binding.assignment
    have htarget := (target.built_true capture).operand Binding.aboveConditional
      target.binding
    simp only [fill, Expr.doc, Doc.pieces_append]
    exact hvalue.behind (htarget.append (.text trivial))
  | binaryLeft op inner right ih =>
    have hleft := (ih level).operand inner.binding_fill_block op.leftDemand
    simp only [fill, Expr.doc, Doc.pieces_append]
    exact (((hleft.append_right _).append_right _).append_right _).append_right _
  | binaryRight op left inner ih =>
    have hright := (ih level).operand inner.binding_fill_block op.rightDemand
    have hleft := (left.built_true capture).operand op.leftDemand left.binding
    simp only [fill, Expr.doc, Doc.pieces_append]
    exact hright.behind
      (((hleft.append (.text trivial)).append (.text trivial)).append (.text trivial))
  | prefixed op inner ih =>
    have hoperand := (ih level).operand inner.binding_fill_block Binding.unary
    -- Whether a blank is needed depends on the first character, which is always the same.
    have hfirst := hoperand.first?
    simp only [fill, Expr.doc, Doc.prefixed]
    simp only [hfirst]
    split
    · exact hoperand.append_left [.text op.spelling, .text " "] rfl
    · exact hoperand.append_left [.text op.spelling] rfl
  | suffixed op inner ih =>
    have hoperand := (ih level).operand inner.binding_fill_block Binding.postfixed
    simp only [fill, Expr.doc, Doc.pieces_append]
    exact hoperand.append_right _
  | indexBase inner position ih =>
    have hbase := (ih level).operand inner.binding_fill_block Binding.postfixed
    simp only [fill, Expr.doc, Doc.pieces_append]
    exact hbase.append_right _
  | indexPosition base inner ih =>
    have hbase := (base.built_true capture).operand Binding.postfixed base.binding
    simp only [fill, Expr.doc, Doc.pieces_append]
    exact (ih level).bracketed.behind hbase
  | callCallee inner arguments ih =>
    have hcallee := (ih level).operand inner.binding_fill_block Binding.postfixed
    simp only [fill, Expr.doc, Doc.pieces_append]
    exact hcallee.append_right _
  | callArgument callee before inner after ih =>
    have hcallee := (callee.built_true capture).operand Binding.postfixed callee.binding
    have hlisted := (ih level).joined ", " (Expr.lastLevel_docs capture before level)
      (after.map (Expr.doc capture))
    simp only [fill, Expr.doc, Doc.pieces_append, Expr.docs_eq_map, List.map_append, List.map_cons]
    exact hlisted.parenthesized.behind hcallee
  | lambdaBody inner parameters ih =>
    have hbody := (ih level).lambdaBody inner.kind_fill_block
    have hparameters : (Doc.joined ", " (parameters.map (Expr.doc capture))).Built fun _ => True :=
      .joined trivial fun doc hdoc => by
        obtain ⟨e, -, rfl⟩ := List.mem_map.mp hdoc
        exact e.built_true capture
    have hcapture : (Doc.text capture).Built fun _ => True := .text trivial
    simp only [fill, Expr.doc, Doc.pieces_append, Expr.docs_eq_map]
    exact hbody.behind ((hcapture.bracketed.append hparameters.parenthesized).append (.text trivial))
  | lambdaParameter body before inner after ih =>
    have hcapture : (Doc.text capture).Built fun _ => True := .text trivial
    have hlisted := (ih level).joined ", " (Expr.lastLevel_docs capture before level)
      (after.map (Expr.doc capture))
    simp only [fill, Expr.doc, Doc.pieces_append, Expr.docs_eq_map, List.map_append, List.map_cons]
    exact ((hlisted.parenthesized.behind hcapture.bracketed).append_right _).append_right _
  | access inner op member ih =>
    have hbase := (ih level).operand inner.binding_fill_block Binding.postfixed
    simp only [fill, Expr.doc, Doc.pieces_append]
    exact (hbase.append_right _).append_right _
  | dimension elementType before inner after ih =>
    have hdimensions := (ih level).dimensions (Expr.lastLevel_docs capture before level)
      (after.map (Expr.doc capture))
    -- There is at least the dimension with the hole, so round brackets never stand here.
    have hempty (statements : List Expr) :
        (before ++ inner.fill (.block statements) :: after).isEmpty = false := by simp
    simp only [fill, Expr.doc, hempty, Doc.pieces_append, Expr.docs_eq_map, List.map_append,
      List.map_cons]
    exact hdimensions.append_left [.text "new ", .text elementType.text] rfl
  | conditionalIf inner thenBranch elseBranch ih =>
    have hcondition := (ih level).operand inner.binding_fill_block Binding.aboveConditional
    simp only [fill, Expr.doc, Doc.pieces_append]
    exact (((hcondition.append_right _).append_right _).append_right _).append_right _
  | conditionalThen condition inner elseBranch ih =>
    have hcondition := (condition.built_true capture).operand Binding.aboveConditional
      condition.binding
    have hthen := (ih level).operand inner.binding_fill_block Binding.conditional
    simp only [fill, Expr.doc, Doc.pieces_append]
    exact ((hthen.behind (hcondition.append (.text trivial))).append_right _).append_right _
  | conditionalElse condition thenBranch inner ih =>
    have hcondition := (condition.built_true capture).operand Binding.aboveConditional
      condition.binding
    have hthen := (thenBranch.built_true capture).operand Binding.conditional
      thenBranch.binding
    have helse := (ih level).operand inner.binding_fill_block Binding.conditional
    simp only [fill, Expr.doc, Doc.pieces_append]
    exact helse.behind (((hcondition.append (.text trivial)).append hthen).append (.text trivial))
  | element before inner after ih =>
    have hlisted := (ih level).joined ", " (Expr.lastLevel_docs capture before level)
      (after.map (Expr.doc capture))
    simp only [fill, Expr.doc, Doc.pieces_append, Expr.docs_eq_map, List.map_append, List.map_cons]
    exact hlisted.parenthesized.append_left [.text "std::make_tuple"] rfl
  | returned inner ih =>
    simp only [fill, Expr.doc, Doc.pieces_append]
    exact (ih level).append_left [.text "return "] rfl
  | blockLine before inner after ih =>
    -- The statement starts a line, so the level before it does not matter.
    have hfirst : Piece.lastLevel level (.text (String.singleton '{') ::
        (before.flatMap (Expr.linePieces capture (level + 1)) ++ [.newline (level + 1)])) =
          level + 1 := by
      rw [Piece.lastLevel, Piece.lastLevel_append]
      rfl
    refine (((ih (level + 1)).append_left _ hfirst).append_right
      (.text (inner.fill (.block [])).kind.terminator ::
        (after.flatMap (Expr.linePieces capture (level + 1)) ++
          [.newline level, .text (String.singleton '}')]))).congr fun statements => ?_
    rw [fill, Expr.pieces_block (by simp)]
    simp [Expr.linePieces, inner.kind_fill_block statements]

theorem CompilationUnit.lastLevel_pieces (capture : String) (statements : List Expr) :
    Piece.lastLevel 0 (CompilationUnit.pieces capture ⟨statements⟩) = 0 := by
  unfold pieces
  induction statements with
  | nil => rfl
  | cons e es ih =>
    rw [List.flatMap_cons, Piece.lastLevel_append, Piece.lastLevel_append]
    exact ih

theorem TreeContext.placed (capture : String) (context : TreeContext) :
    Placed capture 0 fun statements => (context.fill (.block statements)).pieces capture := by
  cases context with
  | unit before inner after =>
    refine (((inner.placed capture 0).append_left (CompilationUnit.pieces capture ⟨before⟩)
      (CompilationUnit.lastLevel_pieces capture before)).append_right
        (.text (inner.fill (.block [])).kind.terminator :: .newline 0 ::
          CompilationUnit.pieces capture ⟨after⟩)).congr fun statements => ?_
    simp [fill, Tree.pieces, CompilationUnit.pieces, inner.kind_fill_block statements]
  | statement inner | expression inner => exact inner.placed capture 0

/-- The brackets of a block stand on lines of one level, its statements one level deeper. -/
theorem Placed.lines {pieces : List Expr → List Piece} (h : Placed capture 0 pieces) :
    ∃ before level head tail after,
      Piece.lines 0 "" (pieces []) = before ++ ⟨level, head ++ "{}" ++ tail⟩ :: after ∧
        ∀ statements, statements ≠ [] → Piece.lines 0 "" (pieces statements) =
          before ++ ⟨level, head ++ String.singleton '{'⟩ ::
            (statements.flatMap (Expr.statementLines capture (level + 1)) ++
              ⟨level, String.singleton '}' ++ tail⟩ :: after) := by
  -- The line of the opening bracket is the last one of what stands before the block, and the line
  -- of the closing bracket goes on with what stands behind it.
  obtain ⟨first, last, h⟩ := h
  obtain ⟨before, head, hbefore⟩ := Piece.lines_eq_append 0 "" first
  obtain ⟨tail, after, hafter⟩ := Piece.lines_eq_cons (Piece.lastLevel 0 first) last
  refine ⟨before, Piece.lastLevel 0 first, head, tail, after, ?_, fun statements hne => ?_⟩
  · have hempty (level : Nat) : ((Expr.block []).doc capture).pieces level =
        [.text (String.singleton '{'), .text (String.singleton '}')] := by
      rw [Expr.doc]
      rfl
    rw [h, List.append_assoc, Piece.lines_append hbefore, hempty]
    show before ++ Piece.lines _ (head ++ String.singleton '{' ++ String.singleton '}') last = _
    have hpair : head ++ String.singleton '{' ++ String.singleton '}' = head ++ "{}" :=
      String.append_assoc
    rw [hafter, hpair]
  · have hlines := Expr.lines_flatMap_linePieces capture statements
      (Piece.lastLevel 0 first + 1) (Piece.lastLevel 0 first) (Piece.lastLevel 0 first)
      (head ++ String.singleton '{') [] (.text (String.singleton '}') :: last)
    have hclose := hafter ("" ++ String.singleton '}')
    rw [h, Expr.pieces_block hne, List.append_assoc, Piece.lines_append hbefore]
    simp only [Piece.lines, List.nil_append, hclose] at hlines
    simpa [Piece.lines] using hlines

end CppTree
