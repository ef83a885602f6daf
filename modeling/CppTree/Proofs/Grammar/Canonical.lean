import CppTree.Proofs.Grammar.Derivation
import CppTree.Proofs.Grammar.Sugar
import CppTree.Proofs.Lexing.Leaves

/-!
# The derivation of a tree

The tokens of a tree have a derivation that means the tree.  `DerivesAt` is the interface between
binding strengths and nonterminals: what is derived at some strength can be derived wherever less is
demanded, and in brackets everywhere.
-/

namespace CppTree

variable {dialect : Dialect}

/-- Whether some derivation of the tokens has the meaning. -/
def Derives (dialect : Dialect) (n : Nonterminal) (ts : List Token) (m : n.Meaning) : Prop :=
  ∃ d : Derivation dialect n, d.yield = ts ∧ d.meaning = m

/-- Whether the tokens are derived, with this meaning, in a place that demands a binding
strength. -/
def DerivesAt (dialect : Dialect) (demand : Nat) (ts : List Token) (e : Expr) : Prop :=
  if demand < Binding.aboveConditional then Derives dialect .assignment ts e
  else if demand < Binding.unary then Derives dialect (.level demand) ts e
  else if demand = Binding.unary then Derives dialect .unary ts e
  else Derives dialect .postfixed ts e

namespace Derives

variable {ts us vs : List Token} {e f g : Expr}

theorem postfixed (h : Derives dialect .primary ts e) : Derives dialect .postfixed ts e := by
  obtain ⟨d, hts, he⟩ := h
  exact ⟨.primary d, hts, he⟩

theorem unary (h : Derives dialect .postfixed ts e) : Derives dialect .unary ts e := by
  obtain ⟨d, hts, he⟩ := h
  exact ⟨.postfixed d, hts, he⟩

theorem tightest (h : Derives dialect .unary ts e) :
    Derives dialect (.level Binding.unary) ts e := by
  obtain ⟨d, hts, he⟩ := h
  exact ⟨.unary rfl d, hts, he⟩

theorem looser {p : Nat} (h : Derives dialect (.level (p + 1)) ts e) (hp : p < Binding.unary) :
    Derives dialect (.level p) ts e := by
  obtain ⟨d, hts, he⟩ := h
  exact ⟨.tighter hp d, hts, he⟩

theorem operation (h : Derives dialect (.level Binding.aboveConditional) ts e) :
    Derives dialect .assignment ts e := by
  obtain ⟨d, hts, he⟩ := h
  exact ⟨.operation d, hts, he⟩

theorem brackets (h : Derives dialect .assignment ts e) :
    Derives dialect .primary (Token.parenthesized ts) e := by
  obtain ⟨d, rfl, rfl⟩ := h
  exact ⟨.brackets d, rfl, rfl⟩

theorem suffixed (op : SuffixOp) (h : Derives dialect .postfixed ts e) :
    Derives dialect .postfixed (ts ++ [.punct op.spelling]) (.suffixed op e) := by
  obtain ⟨d, rfl, rfl⟩ := h
  exact ⟨.suffixed d op, rfl, rfl⟩

theorem index (h : Derives dialect .postfixed ts e) (hposition : Derives dialect .assignment us f) :
    Derives dialect .postfixed (ts ++ Token.bracketed us) (.index e f) := by
  obtain ⟨d, rfl, rfl⟩ := h
  obtain ⟨position, rfl, rfl⟩ := hposition
  exact ⟨.index d position, rfl, rfl⟩

theorem call {es : List Expr} (h : Derives dialect .postfixed ts e)
    (hlist : Derives dialect .arguments (us ++ [.punct ")"]) es) :
    Derives dialect .postfixed (ts ++ Token.parenthesized us) (.call e es) := by
  obtain ⟨d, rfl, rfl⟩ := h
  obtain ⟨list, hyield, rfl⟩ := hlist
  exact ⟨.call d list, by rw [Derivation.yield, hyield, Token.parenthesized], rfl⟩

theorem access (op : AccessOp) (member : Identifier) (h : Derives dialect .postfixed ts e) :
    Derives dialect .postfixed (ts ++ [.punct op.spelling, .word member.text])
      (.access e op member) := by
  obtain ⟨d, rfl, rfl⟩ := h
  exact ⟨.access d op member, rfl, rfl⟩

theorem prefixed (op : PrefixOp) (h : Derives dialect .unary ts e) :
    Derives dialect .unary (.punct op.spelling :: ts) (.prefixed op e) := by
  obtain ⟨d, rfl, rfl⟩ := h
  exact ⟨.prefixed op d, rfl, rfl⟩

theorem binary {op : BinaryOp} (hop : op.isRightAssociative = false)
    (h : Derives dialect (.level op.precedence) ts e)
    (hright : Derives dialect (.level (op.precedence + 1)) us f) :
    Derives dialect (.level op.precedence) (ts ++ .punct op.spelling :: us) (.binary op e f) := by
  obtain ⟨left, rfl, rfl⟩ := h
  obtain ⟨right, rfl, rfl⟩ := hright
  exact ⟨.binary op (BinaryOp.mem_levelOperators.mpr ⟨rfl, hop⟩) left right, rfl, rfl⟩

theorem compound {op : BinaryOp} (hop : op.precedence = Binding.assignment)
    (h : Derives dialect (.level Binding.aboveConditional) ts e)
    (hvalue : Derives dialect .assignment us f) :
    Derives dialect .assignment (ts ++ .punct op.spelling :: us) (.binary op e f) := by
  obtain ⟨target, rfl, rfl⟩ := h
  obtain ⟨value, rfl, rfl⟩ := hvalue
  exact ⟨.compound op (BinaryOp.mem_compoundAssignments.mpr hop) target value, rfl, rfl⟩

theorem assign (h : Derives dialect (.level Binding.aboveConditional) ts e)
    (hvalue : Derives dialect .assignment us f) :
    Derives dialect .assignment (ts ++ .punct "=" :: us) (.assign e f) := by
  obtain ⟨target, rfl, rfl⟩ := h
  obtain ⟨value, rfl, rfl⟩ := hvalue
  exact ⟨.assign target value, rfl, rfl⟩

theorem conditional (h : Derives dialect (.level Binding.aboveConditional) ts e)
    (hthen : Derives dialect .assignment us f) (helse : Derives dialect .assignment vs g) :
    Derives dialect .assignment (ts ++ .punct "?" :: (us ++ .punct ":" :: vs))
      (.conditional e f g) := by
  obtain ⟨condition, rfl, rfl⟩ := h
  obtain ⟨thenBranch, rfl, rfl⟩ := hthen
  obtain ⟨elseBranch, rfl, rfl⟩ := helse
  exact ⟨.conditional condition thenBranch elseBranch, rfl, rfl⟩

end Derives

namespace DerivesAt

variable {demand : Nat} {ts : List Token} {e : Expr}

theorem assignment_iff (hdemand : demand < Binding.aboveConditional) :
    DerivesAt dialect demand ts e ↔ Derives dialect .assignment ts e := by
  rw [DerivesAt, if_pos hdemand]

theorem level_iff (hloose : Binding.aboveConditional ≤ demand) (htight : demand < Binding.unary) :
    DerivesAt dialect demand ts e ↔ Derives dialect (.level demand) ts e := by
  rw [DerivesAt, if_neg (by omega), if_pos htight]

theorem unary_iff : DerivesAt dialect Binding.unary ts e ↔ Derives dialect .unary ts e := by
  rw [DerivesAt, if_neg (by decide), if_neg (by decide), if_pos rfl]

theorem postfixed_iff (hdemand : Binding.unary < demand) :
    DerivesAt dialect demand ts e ↔ Derives dialect .postfixed ts e := by
  have hloose : Binding.aboveConditional < Binding.unary := by decide
  rw [DerivesAt, if_neg (by omega), if_neg (by omega), if_neg (by omega)]

/-- Whatever binds tightly enough to stand at one strength may stand at the next looser one. -/
theorem looser (h : DerivesAt dialect (demand + 1) ts e) : DerivesAt dialect demand ts e := by
  have horder : Binding.aboveConditional < Binding.unary := by decide
  -- The nonterminal changes twice: at the operands of assignments and at unary operators.
  rcases lt_trichotomy (demand + 1) Binding.aboveConditional with hloose | hloose | hloose
  · rw [assignment_iff hloose] at h
    rwa [assignment_iff (by omega)]
  · rw [hloose, level_iff le_rfl horder] at h
    rw [assignment_iff (by omega)]
    exact h.operation
  rcases lt_trichotomy (demand + 1) Binding.unary with htight | htight | htight
  · rw [level_iff (by omega) htight] at h
    rw [level_iff (by omega) (by omega)]
    exact h.looser (by omega)
  · rw [htight, unary_iff] at h
    rw [level_iff (by omega) (by omega)]
    have htightest := h.tightest
    rw [← htight] at htightest
    exact htightest.looser (by omega)
  · rw [postfixed_iff htight] at h
    rcases (by omega : demand = Binding.unary ∨ Binding.unary < demand) with rfl | hdemand
    · exact unary_iff.mpr h.unary
    · exact (postfixed_iff hdemand).mpr h

theorem mono {tighter : Nat} (h : DerivesAt dialect tighter ts e) (hle : demand ≤ tighter) :
    DerivesAt dialect demand ts e := by
  induction hle with
  | refl => exact h
  | step _ ih => exact ih h.looser

theorem expression (h : DerivesAt dialect demand ts e) : Derives dialect .assignment ts e :=
  (assignment_iff (by decide)).mp (h.mono (Nat.zero_le demand))

theorem level (h : DerivesAt dialect demand ts e) (hloose : Binding.aboveConditional ≤ demand)
    (htight : demand ≤ Binding.unary) : Derives dialect (.level demand) ts e := by
  rcases htight.lt_or_eq with hlt | rfl
  · exact (level_iff hloose hlt).mp h
  · exact (unary_iff.mp h).tightest

theorem operand {binding : Nat} (h : DerivesAt dialect binding ts e)
    (hdemand : demand ≤ Binding.postfixed) :
    DerivesAt dialect demand (Token.operand demand binding ts) e := by
  unfold Token.operand
  split
  -- Brackets make a primary of the operand, and a primary may stand everywhere.
  · have hbrackets := h.expression.brackets.postfixed
    exact ((postfixed_iff (by decide)).mpr hbrackets).mono hdemand
  · exact h.mono (by omega)

theorem of_assignment (hdemand : demand < Binding.aboveConditional)
    (h : Derives dialect .assignment ts e) : DerivesAt dialect demand ts e :=
  (assignment_iff hdemand).mpr h

theorem of_unary (h : Derives dialect .unary ts e) : DerivesAt dialect Binding.unary ts e :=
  unary_iff.mpr h

theorem of_postfixed (h : Derives dialect .postfixed ts e) :
    DerivesAt dialect Binding.postfixed ts e :=
  (postfixed_iff (by decide)).mpr h

theorem operand_postfixed {binding : Nat} (h : DerivesAt dialect binding ts e) :
    Derives dialect .postfixed (Token.operand Binding.postfixed binding ts) e :=
  (postfixed_iff (by decide)).mp (h.operand le_rfl)

theorem operand_unary {binding : Nat} (h : DerivesAt dialect binding ts e) :
    Derives dialect .unary (Token.operand Binding.unary binding ts) e :=
  unary_iff.mp (h.operand (by decide))

theorem operand_level {binding : Nat} (h : DerivesAt dialect binding ts e)
    (hloose : Binding.aboveConditional ≤ demand) (htight : demand ≤ Binding.unary) :
    Derives dialect (.level demand) (Token.operand demand binding ts) e :=
  (h.operand (htight.trans (by decide))).level hloose htight

end DerivesAt

/-! ## Lists -/

section
variable {tokens : Expr → List Token} {meaning : Expr → Expr} {es : List Expr}

theorem derives_moreArguments
    (h : ∀ e ∈ es, Derives dialect .assignment (tokens e) (meaning e)) :
    Derives dialect .moreArguments
      ((es.map tokens).flatMap (fun ts => .punct "," :: ts) ++ [.punct ")"]) (es.map meaning) := by
  induction es with
  | nil => exact ⟨.lastArgument, rfl, rfl⟩
  | cons e es ih =>
    obtain ⟨next, hnext, hmeaning⟩ := h e (by simp)
    obtain ⟨others, hothers, hmeanings⟩ := ih fun d hd => h d (by simp [hd])
    refine ⟨.nextArgument next others, ?_, ?_⟩
    · simp [Derivation.yield, hnext, hothers]
    · simp [Derivation.meaning, hmeaning, hmeanings]

theorem derives_arguments (h : ∀ e ∈ es, Derives dialect .assignment (tokens e) (meaning e)) :
    Derives dialect .arguments (Token.commaSeparated (es.map tokens) ++ [.punct ")"])
      (es.map meaning) := by
  cases es with
  | nil => exact ⟨.noArgument, rfl, rfl⟩
  | cons e es =>
    obtain ⟨first, hfirst, hmeaning⟩ := h e (by simp)
    obtain ⟨others, hothers, hmeanings⟩ :=
      derives_moreArguments fun d hd => h d (List.mem_cons_of_mem e hd)
    refine ⟨.firstArgument first others, ?_, ?_⟩
    · simp [Derivation.yield, Token.commaSeparated, hfirst, hothers]
    · simp [Derivation.meaning, hmeaning, hmeanings]

theorem derives_dimensions (h : ∀ e ∈ es, Derives dialect .assignment (tokens e) (meaning e)) :
    Derives dialect .dimensions ((es.map tokens).flatMap Token.bracketed) (es.map meaning) := by
  induction es with
  | nil => exact ⟨.lastDimension, rfl, rfl⟩
  | cons e es ih =>
    obtain ⟨next, hnext, hmeaning⟩ := h e (by simp)
    obtain ⟨others, hothers, hmeanings⟩ := ih fun d hd => h d (by simp [hd])
    refine ⟨.nextDimension next others, ?_, ?_⟩
    · simp [Derivation.yield, Token.bracketed, hnext, hothers]
    · simp [Derivation.meaning, hmeaning, hmeanings]

end

/-! ## Expressions -/

/-- Whether a node belongs to the language of operators: its kind does, and its texts are single
words. -/
def Expr.isOperation : Expr → Bool
  | lambda .. | ret _ | block _ => false
  | allocation elementType _ => isIdentifier elementType.text.toList
  | literal text => isName text
  | _ => true

def Dialect.Has (dialect : Dialect) (e : Expr) : Prop :=
  e.isProper = true ∧ (dialect = .operators → e.isOperation = true)

theorem Dialect.Has.full {e : Expr} (h : dialect.Has e) (hop : e.isOperation = false) :
    dialect = .full := by
  cases dialect with
  | operators => exact absurd (h.2 rfl) (by simp [hop])
  | full => rfl

/-- Whether the tokens of an expression have a derivation that means the expression. -/
def Expr.Derivable (dialect : Dialect) (reading : Reading) (capture : String) : Expr → Prop
  | .ret none => True
  | .ret (some value) =>
    Derives dialect .assignment (value.tokens reading capture) value.desugared
  | .block statements =>
    Derives dialect .block ((Expr.block statements).tokens reading capture)
      (statements.map Expr.desugared)
  | e => DerivesAt dialect e.binding (e.tokens reading capture) e.desugared

section
variable {reading : Reading} {capture : String}

theorem Expr.Derivable.value {e : Expr} (h : e.Derivable dialect reading capture)
    (hvalue : e.isValue = true) :
    DerivesAt dialect e.binding (e.tokens reading capture) e.desugared := by
  cases e with
  | ret | block => simp [isValue, kind] at hvalue
  | _ => exact h

theorem Expr.derivesAt_part {e part : Expr}
    (hpart : (∀ x ∈ part.nodes, dialect.Has x) → part.Derivable dialect reading capture)
    (h : ∀ x ∈ e.nodes, dialect.Has x) (hmem : part ∈ e.operands) :
    DerivesAt dialect part.binding (part.tokens reading capture) part.desugared := by
  have hproper := (self_of_nodes h).1
  rw [isProper, Bool.and_eq_true, List.all_eq_true] at hproper
  exact (hpart (part_of_nodes h (mem_parts_of_operands hmem))).value (hproper.2 part hmem)

theorem Expr.Derivable.statement {e : Expr} (h : e.Derivable dialect reading capture) :
    Derives dialect .statement (e.tokens reading capture ++ e.kind.terminatorTokens)
      e.desugared := by
  cases hvalue : e.isValue with
  | true =>
    obtain ⟨d, hd, hmeaning⟩ := (h.value hvalue).expression
    have hkind : e.kind.terminatorTokens = [.punct ";"] := by
      cases e with
      | ret | block => simp [isValue, kind] at hvalue
      | _ => rfl
    exact ⟨.expression d, by rw [Derivation.yield, hd, hkind], hmeaning⟩
  | false =>
    cases e with
    | ret value =>
      cases value with
      | none =>
        exact ⟨.bareReturn, by simp [Derivation.yield, tokens, kind, Kind.terminatorTokens],
          by simp [Derivation.meaning, desugared]⟩
      | some value =>
        obtain ⟨d, hd, hmeaning⟩ := h
        exact ⟨.returning d, by simp [Derivation.yield, tokens, kind, Kind.terminatorTokens, hd],
          by simp [Derivation.meaning, desugared, hmeaning]⟩
    | block statements =>
      obtain ⟨d, hd, hmeaning⟩ := h
      exact ⟨.blockStatement d, by simp [Derivation.yield, kind, Kind.terminatorTokens, hd],
        by simp [Derivation.meaning, desugared, hmeaning]⟩
    | _ => simp [isValue, kind] at hvalue

/-- The lines of a block up to the bracket that closes it. -/
theorem derives_lines {statements : List Expr} {known : String}
    (h : ∀ e ∈ statements, e.Derivable dialect (.rendered known) capture) :
    Derives dialect .lines
      (Expr.tokenLines (.rendered known) capture statements ++ [.lineBreak, .closeBrace])
      (statements.map Expr.desugared) := by
  induction statements with
  | nil => exact ⟨.lastLine, rfl, rfl⟩
  | cons e es ih =>
    obtain ⟨next, hnext, hmeaning⟩ := (h e (by simp)).statement
    obtain ⟨others, hothers, hmeanings⟩ := ih fun d hd => h d (by simp [hd])
    refine ⟨.nextLine next others, ?_, ?_⟩
    · simp [Derivation.yield, Expr.tokenLines, Reading.lineBreak, hnext, hothers]
    · simp [Derivation.meaning, hmeaning, hmeanings]

/-- The body of a lambda.  Of a return only the value is left. -/
theorem Expr.Derivable.lambdaBody {body : Expr} (h : body.Derivable dialect reading capture) :
    Derives dialect .body (Token.lambdaBody body.kind (body.tokens reading capture))
      body.desugared.returned := by
  cases hvalue : body.isValue with
  | true =>
    obtain ⟨d, hd, hmeaning⟩ := (h.value hvalue).expression
    have hreturned : body.desugared.returned = body.desugared := by
      cases body with
      | ret | block => simp [isValue, kind] at hvalue
      | _ => simp [desugared, returned]
    have htokens (ts : List Token) : Token.lambdaBody body.kind ts =
        Token.braced (.word "return" :: (ts ++ [.punct ";"])) := by
      cases body with
      | ret | block => simp [isValue, kind] at hvalue
      | _ => rfl
    refine ⟨.returnBody d, ?_, hmeaning.trans hreturned.symm⟩
    simp [htokens, Derivation.yield, Token.braced, hd]
  | false =>
    cases body with
    | ret value =>
      cases value with
      | none =>
        refine ⟨.bareReturnBody, ?_, ?_⟩
        · simp [Derivation.yield, tokens, kind, Token.lambdaBody, Token.braced]
        · simp [Derivation.meaning, desugared, returned]
      | some value =>
        obtain ⟨d, hd, hmeaning⟩ := h
        refine ⟨.returnBody d, ?_, ?_⟩
        · simp [Derivation.yield, tokens, kind, Token.lambdaBody, Token.braced, hd]
        · simp [Derivation.meaning, desugared, returned, hmeaning]
    | block statements =>
      obtain ⟨d, hd, hmeaning⟩ := h
      refine ⟨.blockBody d, ?_, ?_⟩
      · simp [Derivation.yield, kind, Token.lambdaBody, hd]
      · simp [Derivation.meaning, desugared, returned, hmeaning]
    | _ => simp [isValue, kind] at hvalue

theorem BinaryOp.precedence_range {op : BinaryOp} (h : op.isRightAssociative = false) :
    Binding.aboveConditional ≤ op.precedence ∧ op.precedence < Binding.unary := by
  cases op <;> first
    | exact absurd h (by decide)
    | decide

/-- The tokens of every expression of a dialect have a derivation that means the expression.  Where
the dialect has lambdas and blocks, line breaks have to be tokens. -/
theorem Expr.derivable (hreading : dialect = .full → reading = .rendered capture) (e : Expr)
    (h : ∀ x ∈ e.nodes, dialect.Has x) : e.Derivable dialect reading capture := by
  induction e using Expr.induct with
  | assign target value htarget hvalue =>
    have htarget := derivesAt_part htarget h (by simp [operands, parts])
    have hvalue := derivesAt_part hvalue h (by simp [operands, parts])
    show DerivesAt dialect Binding.assignment _ _
    rw [tokens, desugared]
    refine .of_assignment (by decide) ?_
    exact .assign (htarget.operand_level le_rfl (by decide)) (hvalue.operand (by decide)).expression
  | binary op left right hleft hright =>
    have hleft := derivesAt_part hleft h (by simp [operands, parts])
    have hright := derivesAt_part hright h (by simp [operands, parts])
    show DerivesAt dialect op.precedence _ _
    rw [tokens, desugared]
    -- Compound assignments are productions of their own, all other operators are levels.
    cases hop : op.isRightAssociative with
    | true =>
      have hprecedence : op.precedence = Binding.assignment := beq_iff_eq.mp hop
      rw [BinaryOp.leftDemand, BinaryOp.rightDemand, if_pos hop, if_pos hop, hprecedence]
      apply DerivesAt.of_assignment (by decide)
      exact .compound hprecedence (hleft.operand_level le_rfl (by decide))
        (hright.operand (by decide)).expression
    | false =>
      obtain ⟨hloose, htight⟩ := BinaryOp.precedence_range hop
      rw [BinaryOp.leftDemand, BinaryOp.rightDemand, if_neg (by simp [hop]), if_neg (by simp [hop])]
      apply (DerivesAt.level_iff hloose htight).mpr
      exact .binary hop (hleft.operand_level hloose htight.le)
        (hright.operand_level (hloose.trans (Nat.le_succ _)) htight)
  | prefixed op operand hoperand =>
    have hoperand := derivesAt_part hoperand h (by simp [operands, parts])
    apply DerivesAt.of_unary
    rw [tokens, desugared]
    exact hoperand.operand_unary.prefixed op
  | suffixed op operand hoperand =>
    have hoperand := derivesAt_part hoperand h (by simp [operands, parts])
    apply DerivesAt.of_postfixed
    rw [tokens, desugared]
    exact hoperand.operand_postfixed.suffixed op
  | index base position hbase hposition =>
    have hbase := derivesAt_part hbase h (by simp [operands, parts])
    have hposition := derivesAt_part hposition h (by simp [operands, parts])
    apply DerivesAt.of_postfixed
    rw [tokens, desugared]
    exact hbase.operand_postfixed.index hposition.expression
  | call callee arguments hcallee harguments =>
    have hcallee := derivesAt_part hcallee h (by simp [operands, parts])
    have harguments := fun e he =>
      (derivesAt_part (harguments e he) h (by simp [operands, parts, he])).expression
    apply DerivesAt.of_postfixed
    rw [tokens, desugared, tokensOf_eq_map, desugaredOf_eq_map]
    exact hcallee.operand_postfixed.call (derives_arguments harguments)
  | lambda body parameters hbody hparameters =>
    have hbody := (hbody (part_of_nodes h (by simp [parts]))).lambdaBody
    have hparameters := fun e he =>
      (derivesAt_part (hparameters e he) h (by simp [operands, he])).expression
    -- A rendered lambda is only read in the full dialect, where the captures leave no token.
    have hfull := (self_of_nodes h).full rfl
    obtain rfl := hreading hfull
    obtain ⟨ps, hps, hpsmeaning⟩ := derives_arguments hparameters
    obtain ⟨b, hb, hbmeaning⟩ := hbody
    refine DerivesAt.of_postfixed ⟨.primary (.lambda hfull ps b), ?_, ?_⟩
    · simp [Derivation.yield, tokens, Reading.captures, Token.bracketed, Token.parenthesized, hps,
        hb]
    · rw [Derivation.meaning, Derivation.meaning, desugared, hpsmeaning, hbmeaning,
        desugaredOf_eq_map]
  | access base op member hbase =>
    have hbase := derivesAt_part hbase h (by simp [operands, parts])
    apply DerivesAt.of_postfixed
    rw [tokens, desugared]
    exact hbase.operand_postfixed.access op member
  | allocation elementType dimensions hdimensions =>
    have hdimensions := fun e he =>
      (derivesAt_part (hdimensions e he) h (by simp [operands, parts, he])).expression
    have htype := (self_of_nodes h).2
    apply DerivesAt.of_unary
    rw [tokens, desugared, tokensOf_eq_map, desugaredOf_eq_map]
    -- The first dimension belongs to the production for arrays, the others to a list of their own.
    cases dimensions with
    | nil => exact ⟨.single elementType htype, rfl, rfl⟩
    | cons size sizes =>
      obtain ⟨first, hfirst, hmeaning⟩ := hdimensions size (by simp)
      obtain ⟨others, hothers, hmeanings⟩ :=
        derives_dimensions fun e he => hdimensions e (List.mem_cons_of_mem size he)
      refine ⟨.array elementType htype first others, ?_, ?_⟩
      · simp [Derivation.yield, hfirst, hothers, Token.bracketed]
      · simp [Derivation.meaning, hmeaning, hmeanings]
  | conditional condition thenBranch elseBranch hcondition hthen helse =>
    have hcondition := derivesAt_part hcondition h (by simp [operands, parts])
    have hthen := derivesAt_part hthen h (by simp [operands, parts])
    have helse := derivesAt_part helse h (by simp [operands, parts])
    show DerivesAt dialect Binding.conditional _ _
    rw [tokens, desugared]
    refine .of_assignment (by decide) ?_
    exact .conditional (hcondition.operand_level le_rfl (by decide))
      (hthen.operand (by decide)).expression (helse.operand (by decide)).expression
  | tuple elements helements =>
    have helements := fun e he =>
      (derivesAt_part (helements e he) h (by simp [operands, parts, he])).expression
    apply DerivesAt.of_postfixed
    rw [tokens, desugared, tokensOf_eq_map, desugaredOf_eq_map]
    -- A tuple has the tokens of the call that it is desugared to.
    have hstd : Derives dialect .primary [.word "std"] (.literal "std") :=
      ⟨.name "std" (by decide), rfl, rfl⟩
    have hname := hstd.postfixed.access .scope ⟨"make_tuple", by decide⟩
    exact hname.call (derives_arguments helements)
  | ret value hvalue =>
    cases value with
    | none => trivial
    | some value =>
      exact (derivesAt_part (hvalue value rfl) h (by simp [operands, parts])).expression
  | block statements hstatements =>
    obtain rfl := hreading ((self_of_nodes h).full rfl)
    obtain ⟨d, hd, hmeaning⟩ :=
      derives_lines fun e he => hstatements e he (part_of_nodes h (by simp [parts, he]))
    rw [Derivable, tokens]
    cases statements with
    | nil => exact ⟨.emptyBlock, rfl, rfl⟩
    | cons e es =>
      refine ⟨.block d, ?_, hmeaning⟩
      simp [Derivation.yield, Token.braced, Reading.lineBreak, hd]
  | literal text =>
    have hname : isName text = true := by
      simpa [isProper, isDelimited, operands, parts] using (self_of_nodes h).1
    have hidentifier : isIdentifier text.toList = true := by
      rw [isName, Bool.and_eq_true, Bool.and_eq_true] at hname
      exact hname.1.1
    have hprimary : Derives dialect .primary [.word text] (.literal text) :=
      ⟨.name text hname, rfl, rfl⟩
    apply DerivesAt.of_postfixed
    rw [tokens, desugared, Scans.lex_identifier hidentifier]
    exact hprimary.postfixed

end

end CppTree
