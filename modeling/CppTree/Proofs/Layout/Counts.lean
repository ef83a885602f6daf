import CppTree.Proofs.Layout.Documents
import CppTree.Proofs.Nodes
import Mathlib.Algebra.BigOperators.Group.List.Basic
import Mathlib.Tactic.Abel

/-!
# Counting over the nodes of a tree

What can be counted in a rendering often comes from few places only: square brackets in front of an
expression, semicolons, and the lines of blocks.  `Doc.Weighs` says how the documents of expressions
are put together and adds up what they have at these places.  The sum is the one over the nodes of
the expression, each with what it writes there itself.  Main statement: `Expr.weighs`.
-/

namespace CppTree

variable {M : Type}

/-- What is counted at the three places. -/
structure Weights (M : Type) where
  /-- At an opening square bracket in front of an expression. -/
  edge : Expr → M
  /-- At the semicolon behind the body of a lambda. -/
  semicolon : M
  /-- At the line starts and the statement ends of a block that is not empty. -/
  block : List Expr → M

/-- The names and texts that an expression brings in itself. -/
def Expr.ownTexts : Expr → List String
  | .access _ _ member => [member.text]
  | .allocation elementType _ => [elementType.text]
  | .literal text => [text]
  | _ => []

theorem Expr.isText_of_mem_ownTexts {isText : String → Prop} {e : Expr} {text : String}
    (h : text ∈ e.ownTexts) (hmember : ∀ name : Identifier, isText name.text)
    (htype : ∀ elementType dimensions, e = .allocation elementType dimensions →
      isText elementType.text)
    (hliteral : ∀ content, e = .literal content → isText content) : isText text := by
  cases e with
  | access base op member =>
    rw [List.mem_singleton.mp h]
    exact hmember member
  | allocation elementType dimensions =>
    rw [List.mem_singleton.mp h]
    exact htype elementType dimensions rfl
  | literal content =>
    rw [List.mem_singleton.mp h]
    exact hliteral content rfl
  | _ => cases h

/-- The texts that stand between the parts of expressions, operators apart. -/
def Doc.fixedTexts : List String :=
  ["", " ", " = ", ", ", " ? ", " : ", "new ", "std::make_tuple", "return", "return ", " return ",
   "; ", ";"]

/-- What a class of texts has to have for the parts of expressions to be connected by them: all
texts that stand between parts, apart from semicolons. -/
structure Doc.Connecting (isText : String → Prop) : Prop where
  fixed : ∀ s ∈ Doc.fixedTexts, ';' ∉ s.toList → isText s
  binary : ∀ op : BinaryOp, isText op.spelling
  prefixed : ∀ op : PrefixOp, isText op.spelling
  suffixed : ∀ op : SuffixOp, isText op.spelling
  access : ∀ op : AccessOp, isText op.spelling

variable [AddCommMonoid M]

/-- What a node adds itself. -/
def Weights.own (weights : Weights M) : Expr → M
  | .index _ position => weights.edge position
  | .allocation _ dimensions => (dimensions.map weights.edge).sum
  | .lambda body _ => if body.kind = .block then 0 else weights.semicolon
  | .block statements => if statements.isEmpty then 0 else weights.block statements
  | _ => 0

/-- What the nodes of an expression add together. -/
def Weights.total (weights : Weights M) (e : Expr) : M :=
  (e.nodes.map weights.own).sum

theorem Weights.sum_total (weights : Weights M) (es : List Expr) :
    (es.map weights.total).sum = ((es.flatMap Expr.nodes).map weights.own).sum := by
  rw [List.map_flatMap, List.flatMap, List.sum_flatten, List.map_map]
  rfl

theorem Weights.total_eq (weights : Weights M) (e : Expr) :
    weights.total e = weights.own e + (e.parts.map weights.total).sum := by
  rw [total, Expr.nodes_eq, List.map_cons, List.sum_cons, ← sum_total]

/-- Documents with what is counted in them. -/
inductive Doc.Weighs (isText : String → Prop) (capture : String) (weights : Weights M) :
    Doc → M → Prop where
  | nil : Weighs isText capture weights .nil 0
  | text {content : String} (h : isText content) : Weighs isText capture weights (.text content) 0
  | append {before after : Doc} {m n : M} (hbefore : Weighs isText capture weights before m)
      (hafter : Weighs isText capture weights after n) :
      Weighs isText capture weights (before ++ after) (m + n)
  | parenthesized {body : Doc} {m : M} (h : Weighs isText capture weights body m) :
      Weighs isText capture weights body.parenthesized m
  | braced {body : Doc} {m : M} (h : Weighs isText capture weights body m) :
      Weighs isText capture weights body.braced m
  | captured (h : isText capture) : Weighs isText capture weights (Doc.bracketed capture) 0
  | subscript {e : Expr} {m : M} (htexts : ∀ x ∈ e.nodes, ∀ text ∈ x.ownTexts, isText text)
      (h : Weighs isText capture weights (e.doc capture) m) :
      Weighs isText capture weights (e.doc capture).bracketed (weights.edge e + m)
  | semicolon : Weighs isText capture weights (.text "; ") weights.semicolon
  | block {statements : List Expr} (hne : statements.isEmpty = false)
      (h : ∀ e ∈ statements, Weighs isText capture weights (e.doc capture) (weights.total e)) :
      Weighs isText capture weights (Doc.braced (.nest (Expr.lines capture statements) ++ .line))
        (weights.block statements + (statements.map weights.total).sum)

variable {isText : String → Prop} {capture : String} {weights : Weights M}

namespace Doc.Weighs

theorem congr {doc : Doc} {m n : M} (h : Weighs isText capture weights doc m) (hmn : m = n) :
    Weighs isText capture weights doc n :=
  hmn ▸ h

theorem operand {body : Doc} {m : M} (h : Weighs isText capture weights body m)
    (demand binding : Nat) : Weighs isText capture weights (.operand demand binding body) m := by
  unfold Doc.operand
  split
  · exact h.parenthesized
  · exact h

theorem prefixed {operator : String} {body : Doc} {m : M} (hoperator : isText operator)
    (hblank : isText " ") (h : Weighs isText capture weights body m) :
    Weighs isText capture weights (.prefixed operator body) m := by
  unfold Doc.prefixed
  split
  · exact (((Weighs.text hoperator).append (.text hblank)).append h).congr (by simp)
  · exact ((Weighs.text hoperator).append h).congr (by simp)

theorem joined {separator : String} {es : List Expr} (hseparator : isText separator)
    (h : ∀ e ∈ es, Weighs isText capture weights (e.doc capture) (weights.total e)) :
    Weighs isText capture weights (.joined separator (es.map (Expr.doc capture)))
      (es.map weights.total).sum := by
  induction es with
  | nil => exact .nil
  | cons first rest ih =>
    have hfirst := h first (by simp)
    have hrest := ih fun e he => h e (List.mem_cons_of_mem first he)
    cases rest with
    | nil => exact hfirst.congr (by simp)
    | cons second rest =>
      exact ((hfirst.append (.text hseparator)).append hrest).congr (by simp)

theorem dimensions {es : List Expr}
    (htexts : ∀ e ∈ es, ∀ x ∈ e.nodes, ∀ text ∈ x.ownTexts, isText text)
    (h : ∀ e ∈ es, Weighs isText capture weights (e.doc capture) (weights.total e)) :
    Weighs isText capture weights
      ((es.map (Expr.doc capture)).foldr (fun size rest => size.bracketed ++ rest) .nil)
      ((es.map weights.edge).sum + (es.map weights.total).sum) := by
  induction es with
  | nil => exact Weighs.nil.congr (by simp)
  | cons size sizes ih =>
    have hsize := (h size (by simp)).subscript (htexts size (by simp))
    have hsizes := ih (fun e he => htexts e (List.mem_cons_of_mem size he))
      fun e he => h e (List.mem_cons_of_mem size he)
    exact (hsize.append hsizes).congr (by simp only [List.map_cons, List.sum_cons]; abel)

theorem lambdaBody {body : Doc} {m : M} (hconnecting : Connecting isText)
    (h : Weighs isText capture weights body m) (kind : Kind) :
    Weighs isText capture weights (.lambdaBody kind body)
      (m + if kind = .block then 0 else weights.semicolon) := by
  have hblank : Weighs isText capture weights (.text " ") 0 :=
    .text (hconnecting.fixed _ (by decide) (by decide))
  have hreturn : Weighs isText capture weights (.text " return ") 0 :=
    .text (hconnecting.fixed _ (by decide) (by decide))
  have hreturned := ((hreturn.append h).append .semicolon).braced
  cases kind with
  | block => exact h.congr (by simp)
  | ret => exact ((hblank.append h).append .semicolon).braced.congr (by simp)
  | _ => exact hreturned.congr (by simp)

end Doc.Weighs

/-- The document of an expression has what its nodes add together. -/
theorem Expr.weighs (hconnecting : Doc.Connecting isText) (hcapture : isText capture) (e : Expr)
    (h : ∀ x ∈ e.nodes, ∀ text ∈ x.ownTexts, isText text) :
    (e.doc capture).Weighs isText capture weights (weights.total e) := by
  have hfixed {s : String} (hs : s ∈ Doc.fixedTexts) (hplain : ';' ∉ s.toList) :
      Doc.Weighs isText capture weights (.text s) 0 := .text (hconnecting.fixed s hs hplain)
  have hcomma : isText ", " := hconnecting.fixed _ (by decide) (by decide)
  induction e using Expr.induct_parts with
  | h e ih =>
    have hparts := fun part hpart => ih part hpart (part_of_nodes h hpart)
    rw [Weights.total_eq]
    cases e with
    | assign target value =>
      have htarget := (hparts target (by simp [parts])).operand Binding.aboveConditional
        target.binding
      have hvalue := (hparts value (by simp [parts])).operand Binding.assignment value.binding
      rw [doc]
      exact ((htarget.append (hfixed (by decide) (by decide))).append hvalue).congr
        (by simp [parts, Weights.own])
    | binary op left right =>
      have hleft := (hparts left (by simp [parts])).operand op.leftDemand left.binding
      have hright := (hparts right (by simp [parts])).operand op.rightDemand right.binding
      have hblank := hfixed (s := " ") (by decide) (by decide)
      rw [doc]
      exact ((((hleft.append hblank).append (.text (hconnecting.binary op))).append hblank).append
        hright).congr (by simp [parts, Weights.own])
    | prefixed op operand =>
      have hoperand := (hparts operand (by simp [parts])).operand Binding.unary operand.binding
      have hblank := hconnecting.fixed " " (by decide) (by decide)
      rw [doc]
      exact (hoperand.prefixed (hconnecting.prefixed op) hblank).congr
        (by simp [parts, Weights.own])
    | suffixed op operand =>
      have hoperand := (hparts operand (by simp [parts])).operand Binding.postfixed operand.binding
      rw [doc]
      exact (hoperand.append (.text (hconnecting.suffixed op))).congr
        (by simp [parts, Weights.own])
    | index base position =>
      have hbase := (hparts base (by simp [parts])).operand Binding.postfixed base.binding
      have hposition := (hparts position (by simp [parts])).subscript
        (part_of_nodes h (by simp [parts]))
      rw [doc]
      exact (hbase.append hposition).congr (by simp [parts, Weights.own, add_left_comm])
    | call callee arguments =>
      have hcallee := (hparts callee (by simp [parts])).operand Binding.postfixed callee.binding
      have harguments := Doc.Weighs.joined hcomma fun e (he : e ∈ arguments) =>
        hparts e (by simp [parts, he])
      rw [doc, docs_eq_map]
      exact (hcallee.append harguments.parenthesized).congr (by simp [parts, Weights.own])
    | lambda body parameters =>
      have hbody := (hparts body (by simp [parts])).lambdaBody hconnecting body.kind
      have hparameters := Doc.Weighs.joined hcomma fun e (he : e ∈ parameters) =>
        hparts e (by simp [parts, he])
      have hblank := hfixed (s := " ") (by decide) (by decide)
      rw [doc, docs_eq_map]
      refine ((((Doc.Weighs.captured hcapture).append hparameters.parenthesized).append
        hblank).append hbody).congr ?_
      simp only [parts, Weights.own, List.map_cons, List.sum_cons]
      abel
    | access base op member =>
      have hbase := (hparts base (by simp [parts])).operand Binding.postfixed base.binding
      have hmember := self_of_nodes h member.text (by simp [ownTexts])
      rw [doc]
      exact ((hbase.append (.text (hconnecting.access op))).append (.text hmember)).congr
        (by simp [parts, Weights.own])
    | allocation elementType dimensions =>
      have htype := self_of_nodes h elementType.text (by simp [ownTexts])
      have hdimensions := Doc.Weighs.dimensions
        (fun e (he : e ∈ dimensions) => part_of_nodes h (by simpa [parts] using he)) hparts
      have hnew := (hfixed (s := "new ") (by decide) (by decide)).append (.text htype)
      rw [doc, docs_eq_map]
      split
      next hempty =>
        rw [List.isEmpty_iff.mp hempty]
        exact (hnew.append Doc.Weighs.nil.parenthesized).congr (by simp [parts, Weights.own])
      next => exact (hnew.append hdimensions).congr (by simp [parts, Weights.own])
    | conditional condition thenBranch elseBranch =>
      have hcondition := (hparts condition (by simp [parts])).operand Binding.aboveConditional
        condition.binding
      have hthen := (hparts thenBranch (by simp [parts])).operand Binding.conditional
        thenBranch.binding
      have helse := (hparts elseBranch (by simp [parts])).operand Binding.conditional
        elseBranch.binding
      rw [doc]
      exact ((((hcondition.append (hfixed (by decide) (by decide))).append hthen).append
        (hfixed (by decide) (by decide))).append helse).congr
          (by simp [parts, Weights.own, add_assoc])
    | tuple elements =>
      have helements := Doc.Weighs.joined hcomma fun e (he : e ∈ elements) => hparts e he
      rw [doc, docs_eq_map]
      exact ((hfixed (by decide) (by decide)).append helements.parenthesized).congr
        (by simp [parts, Weights.own])
    | ret value =>
      cases value with
      | none => exact (hfixed (by decide) (by decide)).congr (by simp [parts, Weights.own])
      | some value =>
        have hvalue := hparts value (by simp [parts])
        rw [doc]
        exact ((hfixed (by decide) (by decide)).append hvalue).congr
          (by simp [parts, Weights.own])
    | block statements =>
      rw [doc, Weights.own]
      split
      next hempty =>
        rw [List.isEmpty_iff.mp hempty]
        exact Doc.Weighs.nil.braced.congr (by simp [parts])
      next hne => exact .block (by simpa using hne) fun e he => hparts e he
    | literal text =>
      exact (Doc.Weighs.text (self_of_nodes h text (by simp [ownTexts]))).congr
        (by simp [parts, Weights.own])

end CppTree
