import CppTree.Proofs.Grammar.Canonical
import CppTree.Proofs.Grammar.Unambiguous
import CppTree.Proofs.Lexing.Separation

/-!
# Faithful renderings

Renderings mean what was rendered: the tokens of an operator expression have one derivation and it
means the expression, and a rendered unit can be told from every other unit up to the two
abbreviations of the layout.
-/

namespace CppTree

/-! ## Operator expressions -/

theorem Expr.isValue_of_isOperation {e : Expr} (h : e.isOperation = true) : e.isValue = true := by
  cases e with
  | ret | block => cases h
  | _ => rfl

theorem Expr.isDelimited_of_isOperation {e : Expr} (h : e.isOperation = true) :
    e.isDelimited = true := by
  cases e with
  | literal text => exact h
  | allocation elementType dimensions =>
    have hbracket : '[' ∉ elementType.text.toList := fun hmem =>
      absurd (isNameChar_of_isIdentifier h hmem) (by decide)
    simpa [isDelimited] using hbracket
  | _ => rfl

theorem Expr.isPlain_of_isOperation {e : Expr} (h : e.isOperation = true) : e.isPlain = true := by
  cases e with
  | literal text =>
    have hname : isIdentifier text.toList = true := by
      rw [isOperation, isName, Bool.and_eq_true, Bool.and_eq_true] at h
      exact h.1.1
    rw [isPlain]
    cases hchars : text.toList with
    | nil => simp [hchars, isIdentifier] at hname
    | cons c cs => rw [isSignedIdentifier, ← hchars, hname, Bool.true_or]
  | allocation elementType dimensions => exact h
  | _ => rfl

theorem Expr.has_of_isOperation (e : Expr) (h : ∀ x ∈ e.nodes, x.isOperation = true) :
    ∀ x ∈ e.nodes, Dialect.operators.Has x := by
  induction e using Expr.induct_parts with
  | h e ih =>
    intro x hx
    rw [nodes_eq] at hx
    rcases List.mem_cons.mp hx with rfl | hx
    · have hself := self_of_nodes h
      have hvalues : x.operands.all isValue = true := List.all_eq_true.mpr fun part hpart =>
        isValue_of_isOperation (self_of_nodes (part_of_nodes h (mem_parts_of_operands hpart)))
      exact ⟨by rw [isProper, isDelimited_of_isOperation hself, hvalues]; rfl, fun _ => hself⟩
    · obtain ⟨part, hpart, hx⟩ := List.mem_flatMap.mp hx
      exact ih part hpart (part_of_nodes h hpart) x hx

/-- The tokens of a rendered operator expression have exactly one derivation, and it means the
expression. -/
theorem Expr.existsUnique_derivation (e : Expr) (renderer : Renderer)
    (h : ∀ x ∈ e.nodes, x.isOperation = true) :
    ∃ d : Derivation .operators .assignment,
      d.yield = lex (renderer.render (.expression e)).1.toList ∧ d.meaning = e.desugared ∧
        ∀ other : Derivation .operators .assignment,
          other.yield = lex (renderer.render (.expression e)).1.toList → other = d := by
  have hlegible : ∀ x ∈ (Tree.expression e).nodes,
      Reading.plain.Legible renderer.style.lambdaCapture x := by
    intro x hx
    have hoperation := h x (by simpa [Tree.nodes, Tree.tops] using hx)
    refine ⟨isPlain_of_isOperation hoperation, fun hkind => ?_⟩
    -- There are no lambdas, so the capture list does not matter.
    cases x <;> cases hkind
    cases hoperation
  have htokens : lex (renderer.render (.expression e)).1.toList =
      e.tokens .plain renderer.style.lambdaCapture := by
    rw [← scan_plain .operand]
    exact Tree.scan_render hlegible (fun hreading => absurd rfl hreading) renderer rfl
  have hderivable : e.Derivable .operators .plain renderer.style.lambdaCapture :=
    e.derivable (fun hfull => by cases hfull) (e.has_of_isOperation h)
  obtain ⟨d, hd, hmeaning⟩ :=
    (hderivable.value (isValue_of_isOperation (self_of_nodes h))).expression
  rw [htokens]
  -- Any other derivation of these tokens is the one that the reader finds.
  exact ⟨d, hd, hmeaning, fun other hother => Derivation.eq_of_yield (hother.trans hd.symm)⟩

/-- `x = a - (b - std::make_tuple(- -c))`, with a tuple at its right edge. -/
def nestedDifference : Expr :=
  .assign (.literal "x") <| .binary .subtract (.literal "a") <| .binary .subtract (.literal "b") <|
    .tuple [.prefixed .negate (.prefixed .negate (.literal "c"))]

theorem existsUnique_derivation_nestedDifference :
    (∀ x ∈ nestedDifference.nodes, x.isOperation = true) ∧
      ∃ d : Derivation .operators .assignment,
        d.yield = lex (Renderer.render {} (.expression nestedDifference)).1.toList ∧
          d.meaning = nestedDifference.desugared ∧
            ∀ other : Derivation .operators .assignment,
              other.yield = lex (Renderer.render {} (.expression nestedDifference)).1.toList →
                other = d := by
  have h : ∀ x ∈ nestedDifference.nodes, x.isOperation = true := by decide
  exact ⟨h, nestedDifference.existsUnique_derivation {} h⟩

/-! ## Units -/

theorem derives_unit {capture : String} {statements : List Expr}
    (h : ∀ e ∈ statements, e.Derivable .full (.rendered capture) capture) :
    Derives .full .unit (CompilationUnit.tokens (.rendered capture) capture ⟨statements⟩)
      (statements.map Expr.desugared) := by
  induction statements with
  | nil => exact ⟨.emptyUnit, rfl, rfl⟩
  | cons e es ih =>
    obtain ⟨first, hfirst, hmeaning⟩ := (h e (by simp)).statement
    obtain ⟨others, hothers, hmeanings⟩ := ih fun d hd => h d (by simp [hd])
    refine ⟨.unitLine first others, ?_, ?_⟩
    · rw [Derivation.yield, hfirst, hothers]
      simp [CompilationUnit.tokens, Reading.lineBreak]
    · rw [Derivation.meaning, hmeaning, hmeanings, List.map_cons]

theorem CompilationUnit.derives_scan (unit : CompilationUnit) (renderer : Renderer)
    (h : ∀ x ∈ (Tree.unit unit).nodes, x.isProper = true) :
    Derives .full .unit
      (scan (.rendered renderer.style.lambdaCapture) .operand
        (renderer.render (.unit unit)).1.toList)
      unit.desugared.statements := by
  have hlegible : ∀ x ∈ (Tree.unit unit).nodes,
      (Reading.rendered renderer.style.lambdaCapture).Legible renderer.style.lambdaCapture x :=
    fun x hx => ⟨h x hx, rfl⟩
  have hscan := Tree.scan_render hlegible (fun _ hkind => by cases hkind) renderer rfl
  rw [hscan]
  refine derives_unit fun e he => e.derivable (fun _ => rfl) fun x hx => ?_
  exact ⟨h x (List.mem_flatMap.mpr ⟨e, he, hx⟩), fun hoperators => by cases hoperators⟩

/-- Two units are rendered alike only if they are the same but for the abbreviations of the
layout. -/
theorem CompilationUnit.desugared_eq_of_render_eq (unit other : CompilationUnit)
    (renderer : Renderer) (hunit : ∀ x ∈ (Tree.unit unit).nodes, x.isProper = true)
    (hother : ∀ x ∈ (Tree.unit other).nodes, x.isProper = true)
    (h : (renderer.render (.unit unit)).1 = (renderer.render (.unit other)).1) :
    unit.desugared = other.desugared := by
  obtain ⟨d, hd, hmeaning⟩ := unit.derives_scan renderer hunit
  obtain ⟨d', hd', hmeaning'⟩ := other.derives_scan renderer hother
  -- One text, so one list of tokens, so one derivation.
  rw [h, ← hd'] at hd
  rw [Derivation.unit_eq_of_yield hd, hmeaning'] at hmeaning
  simpa [desugared] using hmeaning.symm

def abbreviated : CompilationUnit :=
  ⟨[.lambda (.ret (some (.tuple [.literal "x"]))) [.literal "x"], .block [.ret none]]⟩

def writtenOut : CompilationUnit :=
  ⟨[.lambda (.call .makeTuple [.literal "x"]) [.literal "x"], .block [.ret none]]⟩

theorem desugared_abbreviated_eq :
    ((∀ x ∈ (Tree.unit abbreviated).nodes, x.isProper = true) ∧
      (∀ x ∈ (Tree.unit writtenOut).nodes, x.isProper = true) ∧
        (Renderer.render {} (.unit abbreviated)).1 = (Renderer.render {} (.unit writtenOut)).1) ∧
      abbreviated.desugared = writtenOut.desugared := by
  have habbreviated : ∀ x ∈ (Tree.unit abbreviated).nodes, x.isProper = true := by decide
  have hwrittenOut : ∀ x ∈ (Tree.unit writtenOut).nodes, x.isProper = true := by decide
  have htext : (Renderer.render {} (.unit abbreviated)).1 =
      (Renderer.render {} (.unit writtenOut)).1 := by decide +kernel
  exact ⟨⟨habbreviated, hwrittenOut, htext⟩,
    CompilationUnit.desugared_eq_of_render_eq abbreviated writtenOut {} habbreviated hwrittenOut
      htext⟩

end CppTree
