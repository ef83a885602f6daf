import CppTree.Proofs.Grammar.Faithful

/-!
# Shortest renderings

No bracket of a rendering is redundant: whatever tokens the grammar of operators derives an
expression from, there are at least as many of them as in its rendering.  What the layout demands of
an operand is exactly the level of the nonterminal in its place, so an operand that stands in
brackets could not stand there without.  Only branches of a conditional that assign are set in
brackets which the grammar does not need.  Main statements: `Derivation.covers` and, from it,
`Expr.render_shortest`.
-/

namespace CppTree

/-! ## What an operand takes up -/

namespace Expr

/-- Whether an expression assigns, with an operator or without. -/
def isAssignment : Expr → Bool
  | assign .. => true
  | binary op _ _ => compoundAssignments.contains op.spelling
  | _ => false

/-- Whether a node has a production of its own, in which its parts need all the brackets that they
get: tuples are written as calls, and assignments in the branches of a conditional need none. -/
def isTerse : Expr → Bool
  | tuple _ => false
  | conditional _ thenBranch elseBranch => !thenBranch.isAssignment && !elseBranch.isAssignment
  | e => e.isOperation

theorem isOperation_of_isTerse {e : Expr} (h : e.isTerse = true) : e.isOperation = true := by
  cases e with
  | tuple => cases h
  | conditional => rfl
  | _ => exact h

theorem conditional_le_binding {e : Expr} (h : e.isAssignment = false) :
    Binding.conditional ≤ e.binding := by
  cases e with
  | assign => cases h
  | binary op left right =>
    rw [isAssignment] at h
    rw [binding]
    revert h
    cases op <;> decide
  | _ => exact Nat.le_of_ble_eq_true rfl

theorem binding_of_isAssignment {e : Expr} (h : e.isAssignment = true) :
    e.binding = Binding.assignment := by
  cases e with
  | assign => rfl
  | binary op left right =>
    exact BinaryOp.mem_compoundAssignments.mp (List.contains_iff_mem.mp h)
  | _ => cases h

variable {capture : String} {demand : Nat} {e : Expr}

/-- The number of tokens that an expression takes up as an operand. -/
def width (capture : String) (demand : Nat) (e : Expr) : Nat :=
  (Token.operand demand e.binding (e.tokens .plain capture)).length

theorem length_operand :
    (Token.operand demand e.binding (e.tokens .plain capture)).length = e.width capture demand :=
  rfl

theorem width_of_le (h : demand ≤ e.binding) :
    e.width capture demand = (e.tokens .plain capture).length := by
  rw [width, Token.operand, if_neg (by omega)]

theorem width_of_lt (h : e.binding < demand) :
    e.width capture demand = (e.tokens .plain capture).length + 2 := by
  rw [width, Token.operand, if_pos h]
  simp [Token.parenthesized]

theorem width_mono {tighter : Nat} (h : demand ≤ tighter) :
    e.width capture demand ≤ e.width capture tighter := by
  by_cases hdemand : e.binding < demand
  · rw [width_of_lt hdemand, width_of_lt (by omega)]
  · rw [width_of_le (by omega)]
    by_cases htighter : e.binding < tighter
    · rw [width_of_lt htighter]
      omega
    · rw [width_of_le (by omega)]

theorem length_tokens_le_width : (e.tokens .plain capture).length ≤ e.width capture demand := by
  rw [← width_of_le (Nat.zero_le e.binding)]
  exact width_mono (Nat.zero_le demand)

theorem width_le : e.width capture demand ≤ (e.tokens .plain capture).length + 2 := by
  by_cases hdemand : e.binding < demand
  · rw [width_of_lt hdemand]
  · rw [width_of_le (by omega)]
    omega

end Expr

/-! ## What a derivation yields -/

namespace Derivation

variable {capture : String}

/-- Whether there are enough tokens for an expression in its place. -/
def FitsIn (capture : String) (demand : Nat) (e : Expr) (ts : List Token) : Prop :=
  (∀ x ∈ e.nodes, x.isTerse = true) → e.width capture demand ≤ ts.length

/-- Whether a derivation yields as many tokens as the layout gives to what it means. -/
def Covers (capture : String) : {n : Nonterminal} → Derivation .operators n → Prop
  | .primary, d => FitsIn capture Binding.postfixed d.meaning d.yield
  | .postfixed, d => FitsIn capture Binding.postfixed d.meaning d.yield
  | .unary, d => FitsIn capture Binding.unary d.meaning d.yield
  | .level p, d => FitsIn capture p d.meaning d.yield
  | .assignment, d => FitsIn capture Binding.assignment d.meaning d.yield
  | .arguments, d => (∀ e ∈ d.meaning, ∀ x ∈ e.nodes, x.isTerse = true) →
      (Token.commaSeparated (Expr.tokensOf .plain capture d.meaning)).length < d.yield.length
  | .moreArguments, d => (∀ e ∈ d.meaning, ∀ x ∈ e.nodes, x.isTerse = true) →
      ((Expr.tokensOf .plain capture d.meaning).flatMap fun ts => .punct "," :: ts).length <
        d.yield.length
  | .dimensions, d => (∀ e ∈ d.meaning, ∀ x ∈ e.nodes, x.isTerse = true) →
      ((Expr.tokensOf .plain capture d.meaning).flatMap Token.bracketed).length ≤ d.yield.length
  | _, _ => True

section
variable {demand : Nat} {e : Expr} {ts : List Token}

theorem FitsIn.mono {tighter : Nat} (h : FitsIn capture tighter e ts) (hle : demand ≤ tighter) :
    FitsIn capture demand e ts :=
  fun hterse => (Expr.width_mono hle).trans (h hterse)

theorem FitsIn.part {operand : Expr} (h : FitsIn capture demand operand ts)
    (hterse : ∀ x ∈ e.nodes, x.isTerse = true) (hpart : operand ∈ e.parts) :
    operand.width capture demand ≤ ts.length :=
  h (Expr.part_of_nodes hterse hpart)

theorem FitsIn.length_tokens_le (h : FitsIn capture demand e ts)
    (hterse : ∀ x ∈ e.nodes, x.isTerse = true) :
    (e.tokens .plain capture).length ≤ ts.length :=
  Expr.length_tokens_le_width.trans (h hterse)

/-- The branches of a terse conditional stand there without brackets. -/
theorem FitsIn.branch (h : FitsIn capture Binding.assignment e ts)
    (hterse : ∀ x ∈ e.nodes, x.isTerse = true) (hassignment : e.isAssignment = false) :
    e.width capture Binding.conditional ≤ ts.length := by
  rw [Expr.width_of_le (Expr.conditional_le_binding hassignment)]
  exact h.length_tokens_le hterse

theorem FitsIn.of_tokens (hdemand : demand ≤ e.binding)
    (h : (∀ x ∈ e.nodes, x.isTerse = true) → (e.tokens .plain capture).length ≤ ts.length) :
    FitsIn capture demand e ts := by
  intro hterse
  rw [Expr.width_of_le hdemand]
  exact h hterse

end

/-- No derivation yields fewer tokens than the layout gives to what it means. -/
theorem covers {n : Nonterminal} (d : Derivation .operators n) : d.Covers capture := by
  -- By induction on the derivation.  Each production demands of its parts what the layout demands
  -- of the operands there, so the hypotheses for the parts add up.
  induction d with
  | name text h =>
    refine .of_tokens le_rfl fun _ => ?_
    have hidentifier : isIdentifier text.toList = true := by
      rw [isName, Bool.and_eq_true, Bool.and_eq_true] at h
      exact h.1.1
    rw [meaning, yield, Expr.tokens, Scans.lex_identifier hidentifier]
  | brackets inner ih =>
    -- The derivation pays for two brackets, and the layout may or may not set them.
    intro hterse
    have hinner := ih.length_tokens_le hterse
    have hwidth : inner.meaning.width capture Binding.postfixed ≤ _ := Expr.width_le
    simp only [meaning, yield, List.length_cons, List.length_append, List.length_nil]
    omega
  | lambda h => cases h
  | primary operand ih => exact ih
  | postfixed operand ih => exact ih.mono (by decide)
  | unary h operand ih =>
    subst h
    exact ih
  | tighter h operand ih => exact ih.mono (Nat.le_succ _)
  | operation operand ih => exact ih.mono (by decide)
  | suffixed operand op ih =>
    refine .of_tokens le_rfl fun hterse => ?_
    have hoperand := ih.part hterse (by simp [meaning, Expr.parts])
    simp only [meaning, yield, Expr.tokens, List.length_append, List.length_cons, List.length_nil,
      Expr.length_operand]
    omega
  | index base position ihbase ihposition =>
    refine .of_tokens le_rfl fun hterse => ?_
    have hbase := ihbase.part hterse (by simp [meaning, Expr.parts])
    have hposition := ihposition.length_tokens_le
      (Expr.part_of_nodes hterse (by simp [meaning, Expr.parts]))
    simp only [meaning, yield, Expr.tokens, Token.bracketed, List.length_append, List.length_cons,
      List.length_nil, Expr.length_operand]
    omega
  | call callee list ihcallee ihlist =>
    refine .of_tokens le_rfl fun hterse => ?_
    have hcallee := ihcallee.part hterse (by simp [meaning, Expr.parts])
    have hlist := ihlist fun e he => Expr.part_of_nodes hterse (by simp [meaning, Expr.parts, he])
    simp only [meaning, yield, Expr.tokens, Token.parenthesized, List.length_append,
      List.length_cons, List.length_nil, Expr.length_operand]
    omega
  | access base op member ih =>
    refine .of_tokens le_rfl fun hterse => ?_
    have hbase := ih.part hterse (by simp [meaning, Expr.parts])
    simp only [meaning, yield, Expr.tokens, List.length_append, List.length_cons, List.length_nil,
      Expr.length_operand]
    omega
  | prefixed op operand ih =>
    refine .of_tokens le_rfl fun hterse => ?_
    have hoperand := ih.part hterse (by simp [meaning, Expr.parts])
    simp only [meaning, yield, Expr.tokens, List.length_cons, Expr.length_operand]
    omega
  | single elementType h =>
    exact .of_tokens le_rfl fun _ => le_rfl
  | array elementType h size sizes ihsize ihsizes =>
    refine .of_tokens le_rfl fun hterse => ?_
    have hsize := ihsize.length_tokens_le
      (Expr.part_of_nodes hterse (by simp [meaning, Expr.parts]))
    have hsizes := ihsizes fun e he => Expr.part_of_nodes hterse (by simp [meaning, Expr.parts, he])
    rw [meaning, yield, Expr.tokens, if_neg (by simp), Expr.tokensOf, List.flatMap_cons]
    simp only [Token.bracketed, List.length_append, List.length_cons, List.length_nil]
    omega
  | binary op h left right ihleft ihright =>
    obtain ⟨hprecedence, hop⟩ := BinaryOp.mem_levelOperators.mp h
    subst hprecedence
    refine .of_tokens le_rfl fun hterse => ?_
    have hleft := ihleft.part hterse (by simp [meaning, Expr.parts])
    have hright := ihright.part hterse (by simp [meaning, Expr.parts])
    simp only [meaning, yield, Expr.tokens, BinaryOp.leftDemand, BinaryOp.rightDemand, hop,
      Bool.false_eq_true, if_false, List.length_append, List.length_cons, Expr.length_operand]
    omega
  | conditional condition thenBranch elseBranch ihcondition ihthen ihelse =>
    refine .of_tokens (Nat.le_succ _) fun hterse => ?_
    have hcondition : condition.meaning.width capture Binding.aboveConditional ≤ _ :=
      ihcondition.part hterse (by simp [meaning, Expr.parts])
    -- Here the layout demands more than the production, but no branch that is left needs brackets.
    have hbranches := Expr.self_of_nodes hterse
    rw [meaning, Expr.isTerse, Bool.and_eq_true, Bool.not_eq_true', Bool.not_eq_true'] at hbranches
    have hthen := ihthen.branch (Expr.part_of_nodes hterse (by simp [meaning, Expr.parts]))
      hbranches.1
    have helse := ihelse.branch (Expr.part_of_nodes hterse (by simp [meaning, Expr.parts]))
      hbranches.2
    simp only [meaning, yield, Expr.tokens, List.length_append, List.length_cons,
      Expr.length_operand]
    omega
  | assign target value ihtarget ihvalue =>
    refine .of_tokens le_rfl fun hterse => ?_
    have htarget : target.meaning.width capture Binding.aboveConditional ≤ _ :=
      ihtarget.part hterse (by simp [meaning, Expr.parts])
    have hvalue := ihvalue.part hterse (by simp [meaning, Expr.parts])
    simp only [meaning, yield, Expr.tokens, List.length_append, List.length_cons,
      Expr.length_operand]
    omega
  | compound op h target value ihtarget ihvalue =>
    have hprecedence := BinaryOp.mem_compoundAssignments.mp h
    have hop : op.isRightAssociative = true := beq_iff_eq.mpr hprecedence
    refine .of_tokens hprecedence.ge fun hterse => ?_
    have htarget : target.meaning.width capture Binding.aboveConditional ≤ _ :=
      ihtarget.part hterse (by simp [meaning, Expr.parts])
    have hvalue := ihvalue.part hterse (by simp [meaning, Expr.parts])
    simp only [meaning, yield, Expr.tokens, BinaryOp.leftDemand, BinaryOp.rightDemand, hop,
      if_true, hprecedence, List.length_append, List.length_cons, Expr.length_operand]
    omega
  | noArgument | lastArgument => exact fun _ => Nat.one_pos
  | lastDimension => exact fun _ => le_rfl
  | firstArgument first rest ihfirst ihrest =>
    intro hterse
    have hfirst := ihfirst.length_tokens_le (hterse _ (by simp [meaning]))
    have hrest := ihrest fun e he => hterse e (by simp [meaning, he])
    simp only [meaning, yield, Expr.tokensOf, Token.commaSeparated, List.length_append]
    omega
  | nextArgument next rest ihnext ihrest =>
    intro hterse
    have hnext := ihnext.length_tokens_le (hterse _ (by simp [meaning]))
    have hrest := ihrest fun e he => hterse e (by simp [meaning, he])
    simp only [meaning, yield, Expr.tokensOf, List.flatMap_cons, List.length_append,
      List.length_cons]
    omega
  | nextDimension next rest ihnext ihrest =>
    intro hterse
    have hnext := ihnext.length_tokens_le (hterse _ (by simp [meaning]))
    have hrest := ihrest fun e he => hterse e (by simp [meaning, he])
    simp only [meaning, yield, Expr.tokensOf, List.flatMap_cons, Token.bracketed,
      List.length_append, List.length_cons, List.length_nil]
    omega
  | _ => trivial

end Derivation

/-! ## Renderings -/

namespace Expr

theorem lex_render_eq_tokens {e : Expr} (h : ∀ x ∈ e.nodes, x.isOperation = true)
    (renderer : Renderer) :
    lex (renderer.render (.expression e)).1.toList =
      e.tokens .plain renderer.style.lambdaCapture := by
  have hlegible : ∀ x ∈ (Tree.expression e).nodes,
      Reading.plain.Legible renderer.style.lambdaCapture x := by
    intro x hx
    have hoperation := h x (by simpa [Tree.nodes, Tree.tops] using hx)
    refine ⟨isPlain_of_isOperation hoperation, fun hkind => ?_⟩
    -- No operation is a lambda, so nothing is asked of the capture list.
    cases x <;> cases hkind
    cases hoperation
  rw [← scan_plain .operand]
  exact Tree.scan_render hlegible (fun hreading => absurd rfl hreading) renderer rfl

theorem map_desugared_eq_self {es : List Expr} (h : ∀ e ∈ es, e.desugared = e) :
    es.map desugared = es := by
  rw [List.map_congr_left h, List.map_id']

/-- Terse expressions have no abbreviations. -/
theorem desugared_eq_self {e : Expr} (h : ∀ x ∈ e.nodes, x.isTerse = true) : e.desugared = e := by
  induction e using Expr.induct with
  | assign _ _ hfirst hsecond | binary _ _ _ hfirst hsecond | index _ _ hfirst hsecond =>
    rw [desugared, hfirst (part_of_nodes h (by simp [parts])),
      hsecond (part_of_nodes h (by simp [parts]))]
  | prefixed _ _ hoperand | suffixed _ _ hoperand | access _ _ _ hoperand =>
    rw [desugared, hoperand (part_of_nodes h (by simp [parts]))]
  | conditional _ _ _ hcondition hthen helse =>
    rw [desugared, hcondition (part_of_nodes h (by simp [parts])),
      hthen (part_of_nodes h (by simp [parts])), helse (part_of_nodes h (by simp [parts]))]
  | call _ arguments hcallee harguments =>
    rw [desugared, hcallee (part_of_nodes h (by simp [parts])), desugaredOf_eq_map,
      map_desugared_eq_self fun e he => harguments e he (part_of_nodes h (by simp [parts, he]))]
  | allocation _ dimensions hdimensions =>
    rw [desugared, desugaredOf_eq_map,
      map_desugared_eq_self fun e he => hdimensions e he (part_of_nodes h (by simp [parts, he]))]
  | lambda | tuple | ret | block => cases self_of_nodes h
  | literal text => rw [desugared]

theorem derivesAt_tokens {e : Expr} (h : ∀ x ∈ e.nodes, x.isOperation = true) (capture : String) :
    DerivesAt .operators e.binding (e.tokens .plain capture) e.desugared := by
  have hderivable : e.Derivable .operators .plain capture :=
    e.derivable (fun hfull => by cases hfull) (e.has_of_isOperation h)
  exact hderivable.value (isValue_of_isOperation (self_of_nodes h))

/-- A rendered expression is derived from its tokens, and from no fewer. -/
theorem render_shortest (e : Expr) (renderer : Renderer) (h : ∀ x ∈ e.nodes, x.isTerse = true) :
    Derives .operators .assignment (lex (renderer.render (.expression e)).1.toList) e ∧
      ∀ ts, Derives .operators .assignment ts e →
        (lex (renderer.render (.expression e)).1.toList).length ≤ ts.length := by
  have hoperation : ∀ x ∈ e.nodes, x.isOperation = true :=
    fun x hx => isOperation_of_isTerse (h x hx)
  rw [lex_render_eq_tokens hoperation]
  constructor
  · have hderives := derivesAt_tokens hoperation renderer.style.lambdaCapture
    rw [desugared_eq_self h] at hderives
    exact hderives.expression
  · rintro ts ⟨d, rfl, rfl⟩
    exact d.covers.length_tokens_le h

end Expr

/-- `(a + b) * c` -/
def scaledSum : Expr :=
  .binary .multiply (.binary .add (.literal "a") (.literal "b")) (.literal "c")

/-- The tokens of `((a + b)) * c`, two more than needed, are derived as well. -/
theorem render_shortest_scaledSum :
    let sum := [.word "a", .punct "+", .word "b"]
    let ts := Token.parenthesized (Token.parenthesized sum) ++ [.punct "*", .word "c"]
    (∀ x ∈ scaledSum.nodes, x.isTerse = true) ∧
      Derives .operators .assignment ts scaledSum ∧
        (lex (Renderer.render {} (.expression scaledSum)).1.toList).length ≤ ts.length := by
  intro sum ts
  have hterse : ∀ x ∈ scaledSum.nodes, x.isTerse = true := by decide
  -- What stands in brackets, or is a name, may stand on every level.
  have hlevel {p : Nat} {us : List Token} {e : Expr} (h : Derives .operators .primary us e)
      (hloose : Binding.aboveConditional ≤ p) (htight : p ≤ Binding.unary) :
      Derives .operators (.level p) us e :=
    ((DerivesAt.of_postfixed h.postfixed).mono (htight.trans (by decide))).level hloose htight
  have hname (text : String) (h : isName text = true) :
      Derives .operators .primary [.word text] (.literal text) :=
    ⟨.name text h, rfl, rfl⟩
  have hsum : Derives .operators (.level BinaryOp.add.precedence) sum
      (.binary .add (.literal "a") (.literal "b")) :=
    .binary rfl (hlevel (hname "a" (by decide)) (by decide) (by decide))
      (hlevel (hname "b" (by decide)) (by decide) (by decide))
  have hinner := ((DerivesAt.level_iff (by decide) (by decide)).mpr hsum).expression.brackets
  have houter := (DerivesAt.of_postfixed hinner.postfixed).expression.brackets
  have hproduct : Derives .operators (.level BinaryOp.multiply.precedence) ts scaledSum :=
    .binary rfl (hlevel houter (by decide) (by decide))
      (hlevel (hname "c" (by decide)) (by decide) (by decide))
  have hts := ((DerivesAt.level_iff (by decide) (by decide)).mpr hproduct).expression
  exact ⟨hterse, hts, (scaledSum.render_shortest {} hterse).2 ts hts⟩

/-- Branches of a conditional that assign get brackets without which their tokens are derived as
well. -/
theorem Expr.exists_shorter_of_assigning_branch (condition thenBranch elseBranch : Expr)
    (renderer : Renderer)
    (h : ∀ x ∈ (conditional condition thenBranch elseBranch).nodes, x.isOperation = true)
    (hassignment : thenBranch.isAssignment = true ∨ elseBranch.isAssignment = true) :
    ∃ ts, Derives .operators .assignment ts
        (conditional condition thenBranch elseBranch).desugared ∧
      ts.length <
        (lex (renderer.render (.expression
          (conditional condition thenBranch elseBranch))).1.toList).length := by
  have hpart (part : Expr) (hmem : part ∈ [condition, thenBranch, elseBranch]) :
      DerivesAt .operators part.binding (part.tokens .plain renderer.style.lambdaCapture)
        part.desugared :=
    derivesAt_tokens (part_of_nodes h hmem) _
  have hcondition := hpart condition (by simp)
  have hbare := Derives.conditional (hcondition.operand_level le_rfl (by decide))
    (hpart thenBranch (by simp)).expression (hpart elseBranch (by simp)).expression
  rw [desugared, lex_render_eq_tokens h, tokens]
  refine ⟨_, hbare, ?_⟩
  have hbrackets {branch : Expr} (hbranch : branch.isAssignment = true) :
      branch.width renderer.style.lambdaCapture Binding.conditional =
        (branch.tokens .plain renderer.style.lambdaCapture).length + 2 :=
    width_of_lt ((binding_of_isAssignment hbranch).trans_lt (by decide))
  have hthen : (thenBranch.tokens .plain renderer.style.lambdaCapture).length ≤
      thenBranch.width _ Binding.conditional := length_tokens_le_width
  have helse : (elseBranch.tokens .plain renderer.style.lambdaCapture).length ≤
      elseBranch.width _ Binding.conditional := length_tokens_le_width
  simp only [List.length_append, List.length_cons, length_operand]
  rcases hassignment with hbranch | hbranch
  · have hwidth := hbrackets hbranch
    omega
  · have hwidth := hbrackets hbranch
    omega

end CppTree
