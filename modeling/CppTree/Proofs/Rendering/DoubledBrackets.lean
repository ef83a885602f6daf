import CppTree.Proofs.Layout.Counts
import CppTree.Proofs.Names
import CppTree.Proofs.Rendering.Handlers

/-!
# Doubled square brackets

C++ reads two opening square brackets in a row as the start of an attribute.  The layout writes a
square bracket before a subscript, before a dimension and at the start of a lambda, and it does not
look at what follows; so a rendering has two of them in a row exactly where a subscript or a
dimension starts with a square bracket of its own.  Main statement:
`Tree.doubledBracket_render_iff`.
-/

namespace CppTree

/-! ## Left edges -/

/-- Whether an expression has no text at all. -/
def Expr.isVoid : Expr → Bool
  | .literal text => text == ""
  | _ => false

/-- Whether the text of an expression starts with an opening square bracket: a lambda stands at its
left edge, outside of round brackets, or a subscript of nothing. -/
def Expr.opensBracket : Expr → Bool
  | .assign target _ => decide (Binding.aboveConditional ≤ target.binding) && target.opensBracket
  | .binary op left _ => decide (op.leftDemand ≤ left.binding) && left.opensBracket
  | .suffixed _ operand => decide (Binding.postfixed ≤ operand.binding) && operand.opensBracket
  | .index base _ =>
    base.isVoid || decide (Binding.postfixed ≤ base.binding) && base.opensBracket
  | .call callee _ => decide (Binding.postfixed ≤ callee.binding) && callee.opensBracket
  | .lambda .. => true
  | .access base _ _ => decide (Binding.postfixed ≤ base.binding) && base.opensBracket
  | .conditional condition _ _ =>
    decide (Binding.aboveConditional ≤ condition.binding) && condition.opensBracket
  | _ => false

/-- Whether an expression writes an opening square bracket right before another one. -/
def Expr.doublesBracket : Expr → Bool
  | .index _ position => position.opensBracket
  | .allocation _ dimensions => dimensions.any Expr.opensBracket
  | _ => false

theorem PrefixOp.head?_spelling (op : PrefixOp) :
    ∃ c, c ≠ '[' ∧ op.spelling.toList.head? = some c := by
  cases op <;> exact ⟨_, by decide, rfl⟩

theorem SuffixOp.head?_spelling (op : SuffixOp) :
    ∃ c, c ≠ '[' ∧ op.spelling.toList.head? = some c := by
  cases op <;> exact ⟨_, by decide, rfl⟩

theorem AccessOp.head?_spelling (op : AccessOp) :
    ∃ c, c ≠ '[' ∧ op.spelling.toList.head? = some c := by
  cases op <;> exact ⟨_, by decide, rfl⟩

namespace Doc

theorem first?_prefixed (op : PrefixOp) (body : Doc) :
    ∃ c, c ≠ '[' ∧ (prefixed op.spelling body).first? = some c := by
  obtain ⟨c, hc, hhead⟩ := op.head?_spelling
  refine ⟨c, hc, ?_⟩
  unfold prefixed
  split <;> simp [hhead]

theorem first?_operand {demand binding : Nat} {body : Doc} :
    (operand demand binding body).first? =
      if binding < demand then some '(' else body.first? := by
  unfold operand
  split
  · exact first?_parenthesized body
  · rfl

/-- A document that starts with an operand, and goes on with some other character, opens a bracket
only if the operand does and is not in round brackets. -/
theorem first?_eq_bracket_iff {demand binding : Nat} {body doc : Doc} {opens : Bool} {c : Char}
    (hbody : body.first? = some '[' ↔ opens = true) (hc : c ≠ '[')
    (hdoc : doc.first? = ((operand demand binding body).first? <|> some c)) :
    doc.first? = some '[' ↔ (decide (demand ≤ binding) && opens) = true := by
  rw [hdoc, first?_operand]
  split
  next hloose => simp [Nat.not_le.mpr hloose]
  next htight =>
    rw [decide_eq_true (Nat.not_lt.mp htight), Bool.true_and, ← hbody]
    cases body.first? with
    | none => simpa using hc
    | some first => simp

end Doc

theorem Expr.first?_doc_eq_none_iff (capture : String) (e : Expr) :
    (e.doc capture).first? = none ↔ e.isVoid = true := by
  cases e with
  | prefixed op operand =>
    obtain ⟨c, -, hc⟩ :=
      Doc.first?_prefixed op (.operand Binding.unary operand.binding (operand.doc capture))
    simp [doc, hc, isVoid]
  | suffixed op operand =>
    obtain ⟨c, -, hc⟩ := op.head?_spelling
    simp [doc, hc, isVoid]
  | access base op member =>
    obtain ⟨c, -, hc⟩ := op.head?_spelling
    simp [doc, hc, isVoid]
  | ret value => cases value <;> simp [doc, isVoid]
  | literal text => simp [doc, isVoid]
  | _ => simp [doc, isVoid]

variable {capture : String}

/-- Nothing in front of a subscript: the text starts with the bracket of the subscript itself. -/
theorem Expr.first?_index_eq_bracket_iff {base : Expr} (position : Expr)
    (hbase : (base.doc capture).first? = some '[' ↔ base.opensBracket = true) :
    ((Expr.index base position).doc capture).first? = some '[' ↔
      (Expr.index base position).opensBracket = true := by
  rw [doc, Doc.first?_append, Doc.first?_operand, Doc.first?_bracketed, opensBracket,
    Bool.or_eq_true, Bool.and_eq_true, decide_eq_true_eq]
  split
  next hloose =>
    have hvoid : base.isVoid = false := by
      cases base with
      | literal text => exact absurd hloose (Nat.lt_irrefl Binding.postfixed)
      | _ => rfl
    simp [Nat.not_le.mpr hloose, hvoid]
  next htight =>
    rw [← first?_doc_eq_none_iff capture, ← hbase]
    cases (base.doc capture).first? with
    | none => simp
    | some c => simp [Nat.not_lt.mp htight]

/-- The first character of an expression is an opening square bracket only by its left edge. -/
theorem Expr.first?_doc_eq_bracket_iff (e : Expr)
    (htexts : ∀ x ∈ e.nodes, ∀ text, x = .literal text → '[' ∉ text.toList) :
    (e.doc capture).first? = some '[' ↔ e.opensBracket = true := by
  induction e using Expr.induct with
  | assign target value htarget _ =>
    have htarget := htarget (part_of_nodes htexts (by simp [parts]))
    exact Doc.first?_eq_bracket_iff htarget (c := ' ') (by decide) (by simp [doc])
  | binary op left right hleft _ =>
    have hleft := hleft (part_of_nodes htexts (by simp [parts]))
    exact Doc.first?_eq_bracket_iff hleft (c := ' ') (by decide) (by simp [doc])
  | prefixed op operand _ =>
    obtain ⟨c, hc, hfirst⟩ :=
      Doc.first?_prefixed op (.operand Binding.unary operand.binding (operand.doc capture))
    simp [doc, opensBracket, hfirst, hc]
  | suffixed op operand hoperand =>
    have hoperand := hoperand (part_of_nodes htexts (by simp [parts]))
    obtain ⟨c, hc, hhead⟩ := op.head?_spelling
    exact Doc.first?_eq_bracket_iff hoperand hc (by simp [doc, hhead])
  | index base position hbase _ =>
    exact first?_index_eq_bracket_iff position (hbase (part_of_nodes htexts (by simp [parts])))
  | call callee arguments hcallee _ =>
    have hcallee := hcallee (part_of_nodes htexts (by simp [parts]))
    exact Doc.first?_eq_bracket_iff hcallee (c := '(') (by decide) (by simp [doc])
  | lambda body parameters _ _ => simp [doc, opensBracket]
  | access base op member hbase =>
    have hbase := hbase (part_of_nodes htexts (by simp [parts]))
    obtain ⟨c, hc, hhead⟩ := op.head?_spelling
    exact Doc.first?_eq_bracket_iff hbase hc (by simp [doc, hhead])
  | conditional condition thenBranch elseBranch hcondition _ _ =>
    have hcondition := hcondition (part_of_nodes htexts (by simp [parts]))
    exact Doc.first?_eq_bracket_iff hcondition (c := ' ') (by decide) (by simp [doc])
  | ret value _ => cases value <;> simp [doc, opensBracket]
  | literal text =>
    have htext := self_of_nodes htexts text rfl
    have hfirst : text.toList.head? ≠ some '[' := fun h => htext (List.mem_of_mem_head? h)
    simpa [doc, opensBracket] using hfirst
  | allocation _ _ _ | tuple _ _ | block _ _ => simp [doc, opensBracket]

/-! ## Two brackets in a row -/

/-- Two opening square brackets in a row. -/
def doubledBracket : List Char := ['[', '[']

theorem doubledBracket_prefix_cons_iff {c : Char} {cs : List Char} :
    doubledBracket <+: c :: cs ↔ c = '[' ∧ cs.head? = some '[' := by
  rw [doubledBracket, List.cons_prefix_cons, eq_comm]
  cases cs with
  | nil => simp
  | cons d cs => simp [List.cons_prefix_cons, eq_comm]

/-- No two brackets come together where the front does not end in one or the rest does not start
with one. -/
theorem doubledBracket_infix_append_iff {cs ds : List Char}
    (h : cs.getLast? ≠ some '[' ∨ ds.head? ≠ some '[') :
    doubledBracket <:+: cs ++ ds ↔ doubledBracket <:+: cs ∨ doubledBracket <:+: ds := by
  induction cs with
  | nil => simp [doubledBracket]
  | cons c cs ih =>
    rw [List.cons_append, List.infix_cons_iff, List.infix_cons_iff, doubledBracket_prefix_cons_iff,
      doubledBracket_prefix_cons_iff]
    cases cs with
    | nil =>
      have hfirst : ¬ (c = '[' ∧ ds.head? = some '[') := by
        rintro ⟨rfl, hds⟩
        exact h.elim (fun hne => hne rfl) (fun hne => hne hds)
      simp [hfirst, doubledBracket]
    | cons d cs =>
      rw [ih (by simpa using h), or_assoc]
      rfl

theorem doubledBracket_infix_bracketed_iff {cs : List Char} :
    doubledBracket <:+: ['['] ++ cs ++ [']'] ↔ cs.head? = some '[' ∨ doubledBracket <:+: cs := by
  have hnone : ¬ doubledBracket <:+: [']'] := by decide
  rw [doubledBracket_infix_append_iff (.inr (by decide)), List.singleton_append,
    List.infix_cons_iff, doubledBracket_prefix_cons_iff]
  simp [hnone]

theorem not_doubled_of_not_mem {cs : List Char} (h : '[' ∉ cs) : ¬ doubledBracket <:+: cs :=
  fun hdoubled => h (hdoubled.subset (by decide))

namespace Doc

/-- Whether the text of a document has two opening square brackets in a row exactly under some
condition, at every depth.  The text does not end in such a bracket. -/
structure DoublesIff (width : Nat) (doc : Doc) (condition : Prop) : Prop where
  ends : ∀ depth, (doc.print width depth).toList.getLast? ≠ some '['
  doubled_iff : ∀ depth, doubledBracket <:+: (doc.print width depth).toList ↔ condition

namespace DoublesIff

variable {width : Nat} {doc before after : Doc} {p q : Prop}

theorem congr (h : DoublesIff width doc p) (hpq : p ↔ q) : DoublesIff width doc q :=
  ⟨h.ends, fun depth => (h.doubled_iff depth).trans hpq⟩

theorem of_not_mem (h : ∀ depth, '[' ∉ (doc.print width depth).toList) :
    DoublesIff width doc False where
  ends depth hlast := h depth (List.mem_of_mem_getLast? hlast)
  doubled_iff depth := iff_false_intro (not_doubled_of_not_mem (h depth))

theorem nil : DoublesIff width .nil False :=
  of_not_mem fun _ => List.not_mem_nil

theorem text {content : String} (h : '[' ∉ content.toList) :
    DoublesIff width (.text content) False :=
  of_not_mem fun _ => h

theorem line : DoublesIff width .line False :=
  of_not_mem fun depth => by simp [List.mem_replicate]

theorem nest (h : DoublesIff width doc p) : DoublesIff width (.nest doc) p :=
  ⟨fun depth => h.ends (depth + 1), fun depth => h.doubled_iff (depth + 1)⟩

theorem append (hbefore : DoublesIff width before p) (hafter : DoublesIff width after q) :
    DoublesIff width (before ++ after) (p ∨ q) where
  ends depth := by
    rw [print_append, String.toList_append, List.getLast?_append]
    cases hlast : (after.print width depth).toList.getLast? with
    | none => exact hbefore.ends depth
    | some last =>
      rw [Option.some_or, ← hlast]
      exact hafter.ends depth
  doubled_iff depth := by
    rw [print_append, String.toList_append,
      doubledBracket_infix_append_iff (.inl (hbefore.ends depth)), hbefore.doubled_iff,
      hafter.doubled_iff]

/-- Texts without opening square brackets around a document change nothing. -/
theorem between (h : DoublesIff width doc p) {opening closing : String}
    (hopening : '[' ∉ opening.toList) (hclosing : '[' ∉ closing.toList) :
    DoublesIff width (opening ++ doc ++ closing) p :=
  (((text hopening).append h).append (text hclosing)).congr (by simp)

theorem parenthesized (h : DoublesIff width doc p) : DoublesIff width doc.parenthesized p :=
  h.between (by decide) (by decide)

theorem braced (h : DoublesIff width doc p) : DoublesIff width doc.braced p :=
  h.between (by decide) (by decide)

theorem bracketed (h : DoublesIff width doc p) :
    DoublesIff width doc.bracketed (doc.first? = some '[' ∨ p) where
  ends depth := by
    rw [toList_print_bracketed, List.getLast?_concat]
    decide
  doubled_iff depth := by
    rw [toList_print_bracketed, doubledBracket_infix_bracketed_iff, h.doubled_iff,
      first?_eq_head? width depth]

end DoublesIff

end Doc

theorem Doc.DoublesIff.terminator {width : Nat} (kind : Kind) :
    Doc.DoublesIff width (.text kind.terminator) False :=
  .text (by cases kind <;> decide)

theorem Doc.DoublesIff.lines {width : Nat} {condition : Expr → Prop} {statements : List Expr}
    (h : ∀ e ∈ statements, Doc.DoublesIff width (e.doc capture) (condition e)) :
    Doc.DoublesIff width (Expr.lines capture statements) (∃ e ∈ statements, condition e) := by
  induction statements with
  | nil => exact Doc.DoublesIff.nil.congr (by simp)
  | cons e es ih =>
    have hrest := ih fun d hd => h d (List.mem_cons_of_mem e hd)
    have hfirst := (Doc.DoublesIff.line.append (h e (by simp))).append (.terminator e.kind)
    exact (hfirst.append hrest).congr (by simp)

/-! ## Renderings -/

/-- Counts the brackets right in front of expressions that open one of their own. -/
def bracketPairs : Weights Nat where
  edge e := e.opensBracket.toNat
  semicolon := 0
  block _ := 0

theorem edge_bracketPairs_pos_iff (e : Expr) :
    0 < bracketPairs.edge e ↔ e.opensBracket = true := by
  cases h : e.opensBracket <;> simp [bracketPairs, h]

theorem own_bracketPairs_pos_iff (e : Expr) :
    0 < bracketPairs.own e ↔ e.doublesBracket = true := by
  cases e with
  | index base position =>
    rw [Weights.own, edge_bracketPairs_pos_iff, Expr.doublesBracket]
  | allocation elementType dimensions =>
    simp [Weights.own, Expr.doublesBracket, List.sum_pos_iff_exists_pos_nat,
      edge_bracketPairs_pos_iff]
  | _ => simp [Weights.own, bracketPairs, Expr.doublesBracket]

theorem total_bracketPairs_pos_iff (e : Expr) :
    0 < bracketPairs.total e ↔ ∃ x ∈ e.nodes, x.doublesBracket = true := by
  simp [Weights.total, List.sum_pos_iff_exists_pos_nat, own_bracketPairs_pos_iff]

/-- Where brackets are counted right in front of others, they come two in a row. -/
theorem Doc.Weighs.doublesIff {doc : Doc} {n : Nat}
    (h : doc.Weighs ('[' ∉ String.toList ·) capture bracketPairs n) (width : Nat) :
    doc.DoublesIff width (0 < n) := by
  induction h with
  | nil => exact DoublesIff.nil.congr (by simp)
  | text htext => exact (DoublesIff.text htext).congr (by simp)
  | append _ _ hbefore hafter => exact (hbefore.append hafter).congr (by omega)
  | parenthesized _ ih => exact ih.parenthesized
  | braced _ ih => exact ih.braced
  | captured hcapture =>
    have hfirst : capture.toList.head? ≠ some '[' := fun h => hcapture (List.mem_of_mem_head? h)
    exact (DoublesIff.text hcapture).bracketed.congr (by simpa using hfirst)
  | @subscript e m htexts _ ih =>
    have hopens : (e.doc capture).first? = some '[' ↔ e.opensBracket = true :=
      e.first?_doc_eq_bracket_iff fun x hx text htext =>
        htexts x hx text (by simp [htext, Expr.ownTexts])
    refine ih.bracketed.congr ?_
    rw [hopens, Nat.add_pos_iff_pos_or_pos, edge_bracketPairs_pos_iff]
  | semicolon => exact (DoublesIff.text (by decide)).congr (by simp [bracketPairs])
  | block _ _ ih =>
    refine ((DoublesIff.lines ih).nest.append .line).braced.congr ?_
    simp [bracketPairs, List.sum_pos_iff_exists_pos_nat]

theorem connecting_free_of_bracket : Doc.Connecting ('[' ∉ String.toList ·) where
  fixed := by decide
  binary op := by cases op <;> decide
  prefixed op := by cases op <;> decide
  suffixed op := by cases op <;> decide
  access op := by cases op <;> decide

/-- The document of an expression has two opening square brackets in a row exactly if one of its
nodes writes one right before another. -/
theorem Expr.doublesIff (width : Nat) (hcapture : '[' ∉ capture.toList) (e : Expr)
    (h : ∀ x ∈ e.nodes, ∀ text ∈ x.ownTexts, '[' ∉ text.toList) :
    (e.doc capture).DoublesIff width (∃ x ∈ e.nodes, x.doublesBracket = true) :=
  ((e.weighs connecting_free_of_bracket hcapture h).doublesIff width).congr
    (total_bracketPairs_pos_iff e)

theorem Tree.doublesIff (width : Nat) (hcapture : '[' ∉ capture.toList) (tree : Tree)
    (h : ∀ x ∈ tree.nodes, ∀ text ∈ x.ownTexts, '[' ∉ text.toList) :
    (tree.doc capture).DoublesIff width (∃ x ∈ tree.nodes, x.doublesBracket = true) := by
  cases tree with
  | unit u =>
    obtain ⟨statements⟩ := u
    have hstatements : ∀ e ∈ statements,
        (e.doc capture).DoublesIff width (∃ x ∈ e.nodes, x.doublesBracket = true) := fun e he =>
      e.doublesIff width hcapture fun x hx => h x (List.mem_flatMap.mpr ⟨e, he, hx⟩)
    clear h
    show (CompilationUnit.doc capture ⟨statements⟩).DoublesIff width
      (∃ x ∈ statements.flatMap Expr.nodes, x.doublesBracket = true)
    rw [CompilationUnit.doc]
    induction statements with
    | nil => exact Doc.DoublesIff.nil.congr (by simp)
    | cons e es ih =>
      have hrest := ih fun d hd => hstatements d (List.mem_cons_of_mem e hd)
      have hbreak : Doc.DoublesIff width "\n" False := .text (by decide)
      have hfirst := ((hstatements e (by simp)).append (.terminator e.kind)).append hbreak
      exact (hfirst.append hrest).congr (by simp [or_and_right, exists_or])
  | statement e | expression e =>
    simp only [nodes, tops, List.flatMap_singleton] at h ⊢
    exact e.doublesIff width hcapture h

/-- A rendering has two opening square brackets in a row exactly if a subscript or a dimension
starts with one, provided that no literal, element type or capture list brings one in. -/
theorem Tree.doubledBracket_render_iff (renderer : Renderer) (tree : Tree)
    (hcapture : '[' ∉ renderer.style.lambdaCapture.toList)
    (htexts : ∀ text, Expr.literal text ∈ tree.nodes → '[' ∉ text.toList)
    (htypes : ∀ elementType dimensions, Expr.allocation elementType dimensions ∈ tree.nodes →
      '[' ∉ elementType.text.toList) :
    doubledBracket <:+: (renderer.render tree).1.toList ↔
      ∃ x ∈ tree.nodes, x.doublesBracket = true := by
  have hown : ∀ x ∈ tree.nodes, ∀ text ∈ x.ownTexts, '[' ∉ text.toList := by
    intro x hx text htext
    exact Expr.isText_of_mem_ownTexts htext
      (fun name h => absurd (isNameChar_of_isIdentifier name.wellSpelled h) (by decide))
      (fun elementType dimensions h => htypes elementType dimensions (h ▸ hx))
      (fun content h => htexts content (h ▸ hx))
  have hdoubles := tree.doublesIff renderer.style.indentWidth hcapture hown
  rw [Renderer.render_eq]
  exact hdoubles.doubled_iff renderer.depth

def calledSubscript : Tree :=
  .expression <| .index
    (.index (.literal "xs") (.prefixed .not (.call (.lambda (.literal "i") []) [])))
    (.call (.lambda (.literal "j") []) [])

theorem calledSubscript_free_of_bracket :
    (∀ text, Expr.literal text ∈ calledSubscript.nodes → '[' ∉ text.toList) ∧
      ∀ elementType dimensions, Expr.allocation elementType dimensions ∈ calledSubscript.nodes →
        '[' ∉ elementType.text.toList := by
  constructor
  · intro text htext
    have hliterals : text = "xs" ∨ text = "i" ∨ text = "j" := by
      simpa [calledSubscript, Tree.nodes, Tree.tops, Expr.nodes] using htext
    rcases hliterals with rfl | rfl | rfl <;> decide
  · intro elementType dimensions h
    simp [calledSubscript, Tree.nodes, Tree.tops, Expr.nodes] at h

theorem calledSubscript_text : (Renderer.render {} calledSubscript).1 =
    "xs[![&]() { return i; }()][[&]() { return j; }()]" := by
  decide

/-- Both subscripts call a lambda, but only the second has it at its left edge. -/
theorem doubledBracket_render_calledSubscript :
    '[' ∉ "&".toList ∧ (∀ text, Expr.literal text ∈ calledSubscript.nodes → '[' ∉ text.toList) ∧
      (∀ elementType dimensions, Expr.allocation elementType dimensions ∈ calledSubscript.nodes →
        '[' ∉ elementType.text.toList) ∧
      doubledBracket <:+: (Renderer.render {} calledSubscript).1.toList := by
  have hcapture : '[' ∉ "&".toList := by decide
  obtain ⟨htexts, htypes⟩ := calledSubscript_free_of_bracket
  have hnode : ∃ x ∈ calledSubscript.nodes, x.doublesBracket = true :=
    ⟨_, List.mem_cons_self, rfl⟩
  exact ⟨hcapture, htexts, htypes,
    (Tree.doubledBracket_render_iff {} calledSubscript hcapture htexts htypes).mpr hnode⟩

/-- Subscripts that call a lambda show that renderings are not free of doubled brackets. -/
theorem not_render_free_of_doubledBracket :
    ¬ ∀ (renderer : Renderer) (tree : Tree), '[' ∉ renderer.style.lambdaCapture.toList →
      (∀ text, Expr.literal text ∈ tree.nodes → '[' ∉ text.toList) →
      (∀ elementType dimensions, Expr.allocation elementType dimensions ∈ tree.nodes →
        '[' ∉ elementType.text.toList) →
      ¬ doubledBracket <:+: (renderer.render tree).1.toList := by
  intro h
  obtain ⟨htexts, htypes⟩ := calledSubscript_free_of_bracket
  have hfree := h {} calledSubscript (by decide) htexts htypes
  rw [calledSubscript_text] at hfree
  exact hfree ⟨"xs[![&]() { return i; }()]".toList, "&]() { return j; }()]".toList,
    by decide⟩

end CppTree
