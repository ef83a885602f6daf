import CppTree.Proofs.Layout.Counts

/-!
# How the documents of expressions are built

Every document of an expression is put together from texts, documents in brackets, and nested lines
that come back to the level where they started.  What these steps preserve holds of every rendering.
Main statement: `Expr.built`.
-/

namespace CppTree

namespace Doc

/-- Documents built from some texts.  Brackets come in pairs, and nested lines are followed by the
start of a line at the outer level. -/
inductive Built (isText : String → Prop) : Doc → Prop where
  | nil : Built isText .nil
  | text {content : String} (h : isText content) : Built isText (.text content)
  | line : Built isText .line
  | append {before after : Doc} (hbefore : Built isText before) (hafter : Built isText after) :
      Built isText (before ++ after)
  | parenthesized {body : Doc} (h : Built isText body) : Built isText body.parenthesized
  | bracketed {body : Doc} (h : Built isText body) : Built isText body.bracketed
  | braced {body : Doc} (h : Built isText body) : Built isText body.braced
  | nest {body : Doc} (h : Built isText body) : Built isText (.nest body ++ .line)

/-- What a class of texts has to have for expressions to be built from them. -/
structure Spelled (isText : String → Prop) : Prop where
  fixed : ∀ s ∈ fixedTexts, isText s
  binary : ∀ op : BinaryOp, isText op.spelling
  prefixed : ∀ op : PrefixOp, isText op.spelling
  suffixed : ∀ op : SuffixOp, isText op.spelling
  access : ∀ op : AccessOp, isText op.spelling
  member : ∀ name : Identifier, isText name.text
  elementType : ∀ name : TypeName, isText name.text

namespace Built

variable {isText : String → Prop}

theorem operand {body : Doc} (h : Built isText body) (demand binding : Nat) :
    Built isText (.operand demand binding body) := by
  unfold Doc.operand
  split
  · exact h.parenthesized
  · exact h

theorem joined {separator : String} (hseparator : isText separator) {docs : List Doc}
    (h : ∀ doc ∈ docs, Built isText doc) : Built isText (.joined separator docs) := by
  fun_induction Doc.joined separator docs with
  | case1 => exact .nil
  | case2 last => exact h last (by simp)
  | case3 first second rest ih =>
    have hrest := ih fun doc hdoc => h doc (List.mem_cons_of_mem first hdoc)
    exact ((h first (by simp)).append (.text hseparator)).append hrest

end Built

end Doc

variable {isText : String → Prop} {capture : String}

theorem Doc.Spelled.terminator (h : Doc.Spelled isText) (kind : Kind) :
    Doc.Built isText (.text kind.terminator) := by
  cases kind <;> exact .text (h.fixed _ (by decide))

theorem Doc.Built.lines {statements : List Expr} (hspelled : Doc.Spelled isText)
    (h : ∀ e ∈ statements, Doc.Built isText (e.doc capture)) :
    Doc.Built isText (Expr.lines capture statements) := by
  induction statements with
  | nil => exact .nil
  | cons e es ih =>
    have hrest := ih fun d hd => h d (by simp [hd])
    exact ((Doc.Built.line.append (h e (by simp))).append (hspelled.terminator e.kind)).append hrest

theorem Doc.Spelled.connecting (h : Doc.Spelled isText) : Doc.Connecting isText where
  fixed s hs _ := h.fixed s hs
  binary := h.binary
  prefixed := h.prefixed
  suffixed := h.suffixed
  access := h.access

/-- A document in which something can be counted is built in the same steps. -/
theorem Doc.Weighs.built {M : Type} [AddCommMonoid M] {weights : Weights M} {doc : Doc} {m : M}
    (hspelled : Doc.Spelled isText) (h : doc.Weighs isText capture weights m) :
    doc.Built isText := by
  induction h with
  | nil => exact .nil
  | text htext => exact .text htext
  | append _ _ hbefore hafter => exact hbefore.append hafter
  | parenthesized _ ih => exact ih.parenthesized
  | braced _ ih => exact ih.braced
  | captured hcapture => exact (Built.text hcapture).bracketed
  | subscript _ _ ih => exact ih.bracketed
  | semicolon => exact .text (hspelled.fixed _ (by decide))
  | block _ _ ih => exact (Built.lines hspelled ih).nest.braced

/-- The document of every expression is built from spellings, the capture list and the literals. -/
theorem Expr.built (hspelled : Doc.Spelled isText) (hcapture : isText capture) (e : Expr)
    (h : ∀ x ∈ e.nodes, ∀ text, x = .literal text → isText text) :
    (e.doc capture).Built isText := by
  have hown : ∀ x ∈ e.nodes, ∀ text ∈ x.ownTexts, isText text := fun x hx text htext =>
    isText_of_mem_ownTexts htext hspelled.member (fun name _ _ => hspelled.elementType name)
      (h x hx)
  -- Nothing is counted here.
  have hweighs : (e.doc capture).Weighs isText capture ⟨fun _ => 0, 0, fun _ => 0⟩ _ :=
    e.weighs (M := Nat) hspelled.connecting hcapture hown
  exact hweighs.built hspelled

theorem Tree.built (hspelled : Doc.Spelled isText) (hbreak : isText "\n")
    (hcapture : isText capture) (tree : Tree)
    (h : ∀ x ∈ tree.nodes, ∀ text, x = .literal text → isText text) :
    (tree.doc capture).Built isText := by
  cases tree with
  | unit u =>
    obtain ⟨statements⟩ := u
    show Doc.Built isText (CompilationUnit.doc capture ⟨statements⟩)
    have hstatements : ∀ e ∈ statements, Doc.Built isText (e.doc capture) := fun e he =>
      e.built hspelled hcapture fun x hx => h x (List.mem_flatMap.mpr ⟨e, he, hx⟩)
    clear h
    rw [CompilationUnit.doc]
    induction statements with
    | nil => exact .nil
    | cons e es ih =>
      have hrest := ih fun d hd => hstatements d (by simp [hd])
      exact (((hstatements e (by simp)).append (hspelled.terminator e.kind)).append
        (.text hbreak)).append hrest
  | statement e | expression e =>
    exact e.built hspelled hcapture (by simpa [nodes, tops] using h)

end CppTree
