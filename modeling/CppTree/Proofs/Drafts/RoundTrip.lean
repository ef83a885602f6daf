import CppTree.Draft
import CppTree.Proofs.Operators

/-!
# Drafts and the expressions built from them

A draft is canonical if it spells its operators as in C++ and gives every lambda a parameter list.
Building undoes reading back (`Expr.build_draft`), and reading back what was built gives the
canonical draft (`Draft.draft_of_build`), so two drafts build the same expression exactly if they
have the same canonical draft.
-/

namespace CppTree

/-! ## Canonical drafts -/

mutual

/-- A draft without words for operators and without absent parameter lists. -/
def Draft.canonical : Draft → Draft
  | .assign target value => .assign target.canonical value.canonical
  | .binary token left right => .binary (canonicalToken token) left.canonical right.canonical
  | .prefixed token operand => .prefixed (canonicalToken token) operand.canonical
  | .suffixed token operand => .suffixed (canonicalToken token) operand.canonical
  | .index base position => .index base.canonical position.canonical
  | .call callee arguments => .call callee.canonical (Draft.canonicalAll arguments)
  | .lambda body none => .lambda body.canonical (some [])
  | .lambda body (some parameters) =>
    .lambda body.canonical (some (Draft.canonicalAll parameters))
  | .access base token member => .access base.canonical (canonicalToken token) member
  | .allocation elementType dimensions =>
    .allocation elementType (Draft.canonicalAll dimensions)
  | .conditional condition thenBranch elseBranch =>
    .conditional condition.canonical thenBranch.canonical elseBranch.canonical
  | .tuple elements => .tuple (Draft.canonicalAll elements)
  | .ret none => .ret none
  | .ret (some value) => .ret (some value.canonical)
  | .block statements => .block (Draft.canonicalAll statements)
  | .literal text => .literal text

def Draft.canonicalAll : List Draft → List Draft
  | [] => []
  | draft :: drafts => draft.canonical :: Draft.canonicalAll drafts

end

@[simp]
theorem Draft.canonicalAll_eq_map (drafts : List Draft) :
    Draft.canonicalAll drafts = drafts.map Draft.canonical := by
  induction drafts with
  | nil => simp [Draft.canonicalAll]
  | cons draft drafts ih => simp [Draft.canonicalAll, ih]

def TreeDraft.canonical : TreeDraft → TreeDraft
  | unit statements => .unit (statements.map Draft.canonical)
  | statement draft => .statement draft.canonical
  | expression draft => .expression draft.canonical

/-! ## Building what was read back -/

theorem Operator.ofToken_spelling {α : Type} [Operator α] [Operator.Lawful α] (op : α) :
    Operator.ofToken (Operator.spelling op) = .ok op := by
  rw [Operator.ofToken, Operator.ofToken?_spelling]

theorem Identifier.ofText_text (name : Identifier) : Identifier.ofText name.text = .ok name := by
  rw [ofText, dif_pos name.wellSpelled]

theorem TypeName.ofText_text (name : TypeName) : TypeName.ofText name.text = .ok name := by
  rw [ofText, dif_pos name.wellSpelled]

theorem Draft.buildAll_draft {es : List Expr} (h : ∀ e ∈ es, e.draft.build = .ok e) :
    Draft.buildAll (es.map Expr.draft) = .ok es := by
  induction es with
  | nil => rfl
  | cons e es ih =>
    rw [List.map_cons, Draft.buildAll, h e (by simp), ih fun d hd => h d (by simp [hd])]
    rfl

/-- An expression is built again from its own texts. -/
theorem Expr.build_draft (e : Expr) : e.draft.build = .ok e := by
  induction e using Expr.induct with
  | assign target value htarget hvalue =>
    rw [draft, Draft.build, htarget, hvalue]
    rfl
  | binary op left right hleft hright =>
    have hop : Operator.ofToken op.spelling = .ok op := Operator.ofToken_spelling op
    rw [draft, Draft.build, hleft, hright]
    show binaryOf op.spelling left right = _
    rw [binaryOf, hop]
    rfl
  | prefixed op operand hoperand =>
    have hop : Operator.ofToken op.spelling = .ok op := Operator.ofToken_spelling op
    rw [draft, Draft.build, hoperand]
    show prefixedOf op.spelling operand = _
    rw [prefixedOf, hop]
    rfl
  | suffixed op operand hoperand =>
    have hop : Operator.ofToken op.spelling = .ok op := Operator.ofToken_spelling op
    rw [draft, Draft.build, hoperand]
    show suffixedOf op.spelling operand = _
    rw [suffixedOf, hop]
    rfl
  | index base position hbase hposition =>
    rw [draft, Draft.build, hbase, hposition]
    rfl
  | call callee arguments hcallee harguments =>
    rw [draft, Draft.build, hcallee, drafts_eq_map, Draft.buildAll_draft harguments]
    rfl
  | lambda body parameters hbody hparameters =>
    rw [draft, Draft.build, hbody, drafts_eq_map, Draft.buildAll_draft hparameters]
    rfl
  | access base op member hbase =>
    have hop : Operator.ofToken op.spelling = .ok op := Operator.ofToken_spelling op
    rw [draft, Draft.build, hbase]
    show accessOf base op.spelling member.text = _
    rw [accessOf, hop, Identifier.ofText_text]
    rfl
  | allocation elementType dimensions hdimensions =>
    rw [draft, Draft.build, drafts_eq_map, Draft.buildAll_draft hdimensions]
    show allocationOf elementType.text dimensions = _
    rw [allocationOf, TypeName.ofText_text]
    rfl
  | conditional condition thenBranch elseBranch hcondition hthen helse =>
    rw [draft, Draft.build, hcondition, hthen, helse]
    rfl
  | tuple elements helements =>
    rw [draft, Draft.build, drafts_eq_map, Draft.buildAll_draft helements]
    rfl
  | ret value hvalue =>
    cases value with
    | none => rfl
    | some value =>
      rw [draft, Draft.build, hvalue value rfl]
      rfl
  | block statements hstatements =>
    rw [draft, Draft.build, drafts_eq_map, Draft.buildAll_draft hstatements]
    rfl
  | literal text => rfl

/-! ## Reading back what was built -/

section
variable {α β : Type}

theorem exists_of_bind_eq_ok {x : Except Fault α} {f : α → Except Fault β} {b : β}
    (h : (x >>= f) = .ok b) : ∃ a, x = .ok a ∧ f a = .ok b := by
  cases x with
  | error fault => cases h
  | ok a => exact ⟨a, rfl, h⟩

variable [Operator α] [Operator.Lawful α]

theorem Operator.spelling_of_ofToken {token : String} {op : α}
    (h : Operator.ofToken token = .ok op) :
    Operator.spelling op = canonicalToken token := by
  unfold Operator.ofToken at h
  split at h
  · next op' hread =>
    cases h
    exact Operator.spelling_of_ofToken? hread
  · cases h

end

theorem Identifier.text_of_ofText {text : String} {name : Identifier}
    (h : Identifier.ofText text = .ok name) : name.text = text := by
  unfold ofText at h
  split at h
  · cases h
    rfl
  · cases h

theorem TypeName.text_of_ofText {text : String} {name : TypeName}
    (h : TypeName.ofText text = .ok name) : name.text = text := by
  unfold ofText at h
  split at h
  · cases h
    rfl
  · cases h

theorem Draft.drafts_of_buildAll {drafts : List Draft} {es : List Expr}
    (hdrafts : ∀ draft ∈ drafts, ∀ e, draft.build = .ok e → e.draft = draft.canonical)
    (h : buildAll drafts = .ok es) : es.map Expr.draft = drafts.map canonical := by
  induction drafts generalizing es with
  | nil =>
    cases h
    rfl
  | cons draft drafts ih =>
    rw [buildAll] at h
    obtain ⟨e, he, h⟩ := exists_of_bind_eq_ok h
    obtain ⟨es, hes, h⟩ := exists_of_bind_eq_ok h
    cases h
    rw [List.map_cons, List.map_cons, hdrafts draft (by simp) e he,
      ih (fun d hd => hdrafts d (by simp [hd])) hes]

/-- An expression is read back as the canonical form of the draft it was built from. -/
theorem Draft.draft_of_build (draft : Draft) (e : Expr) (h : draft.build = .ok e) :
    e.draft = draft.canonical := by
  induction draft using Draft.induct generalizing e with
  | assign target value htarget hvalue =>
    rw [build] at h
    obtain ⟨target', ht, h⟩ := exists_of_bind_eq_ok h
    obtain ⟨value', hv, h⟩ := exists_of_bind_eq_ok h
    cases h
    rw [Expr.draft, canonical, htarget _ ht, hvalue _ hv]
  | binary token left right hleft hright =>
    rw [build] at h
    obtain ⟨left', hl, h⟩ := exists_of_bind_eq_ok h
    obtain ⟨right', hr, h⟩ := exists_of_bind_eq_ok h
    obtain ⟨op, hop, h⟩ := exists_of_bind_eq_ok h
    cases h
    rw [Expr.draft, canonical, hleft _ hl, hright _ hr, ← Operator.spelling_of_ofToken hop]
    rfl
  | prefixed token operand hoperand =>
    rw [build] at h
    obtain ⟨operand', ho, h⟩ := exists_of_bind_eq_ok h
    obtain ⟨op, hop, h⟩ := exists_of_bind_eq_ok h
    cases h
    rw [Expr.draft, canonical, hoperand _ ho, ← Operator.spelling_of_ofToken hop]
    rfl
  | suffixed token operand hoperand =>
    rw [build] at h
    obtain ⟨operand', ho, h⟩ := exists_of_bind_eq_ok h
    obtain ⟨op, hop, h⟩ := exists_of_bind_eq_ok h
    cases h
    rw [Expr.draft, canonical, hoperand _ ho, ← Operator.spelling_of_ofToken hop]
    rfl
  | index base position hbase hposition =>
    rw [build] at h
    obtain ⟨base', hb, h⟩ := exists_of_bind_eq_ok h
    obtain ⟨position', hp, h⟩ := exists_of_bind_eq_ok h
    cases h
    rw [Expr.draft, canonical, hbase _ hb, hposition _ hp]
  | call callee arguments hcallee harguments =>
    rw [build] at h
    obtain ⟨callee', hc, h⟩ := exists_of_bind_eq_ok h
    obtain ⟨arguments', ha, h⟩ := exists_of_bind_eq_ok h
    cases h
    rw [Expr.draft, canonical, hcallee _ hc, Expr.drafts_eq_map, canonicalAll_eq_map,
      drafts_of_buildAll harguments ha]
  | lambda body parameters hbody hparameters =>
    cases parameters with
    | none =>
      rw [build] at h
      obtain ⟨body', hb, h⟩ := exists_of_bind_eq_ok h
      cases h
      rw [Expr.lambdaOf, Expr.draft, canonical, hbody _ hb]
      rfl
    | some parameters =>
      rw [build] at h
      obtain ⟨body', hb, h⟩ := exists_of_bind_eq_ok h
      obtain ⟨parameters', hp, h⟩ := exists_of_bind_eq_ok h
      cases h
      have hlist : parameters'.map Expr.draft = parameters.map canonical :=
        drafts_of_buildAll hparameters hp
      rw [Expr.lambdaOf, Expr.draft, canonical, hbody _ hb, Expr.drafts_eq_map,
        canonicalAll_eq_map, ← hlist]
      rfl
  | access base token member hbase =>
    rw [build] at h
    obtain ⟨base', hb, h⟩ := exists_of_bind_eq_ok h
    obtain ⟨op, hop, h⟩ := exists_of_bind_eq_ok h
    obtain ⟨name, hname, h⟩ := exists_of_bind_eq_ok h
    cases h
    rw [Expr.draft, canonical, hbase _ hb, ← Operator.spelling_of_ofToken hop,
      Identifier.text_of_ofText hname]
    rfl
  | allocation elementType dimensions hdimensions =>
    rw [build] at h
    obtain ⟨dimensions', hd, h⟩ := exists_of_bind_eq_ok h
    obtain ⟨name, hname, h⟩ := exists_of_bind_eq_ok h
    cases h
    rw [Expr.draft, canonical, TypeName.text_of_ofText hname, Expr.drafts_eq_map,
      canonicalAll_eq_map, drafts_of_buildAll hdimensions hd]
  | conditional condition thenBranch elseBranch hcondition hthen helse =>
    rw [build] at h
    obtain ⟨condition', hc, h⟩ := exists_of_bind_eq_ok h
    obtain ⟨then', ht, h⟩ := exists_of_bind_eq_ok h
    obtain ⟨else', he, h⟩ := exists_of_bind_eq_ok h
    cases h
    rw [Expr.draft, canonical, hcondition _ hc, hthen _ ht, helse _ he]
  | tuple elements helements =>
    rw [build] at h
    obtain ⟨elements', he, h⟩ := exists_of_bind_eq_ok h
    cases h
    rw [Expr.draft, canonical, Expr.drafts_eq_map, canonicalAll_eq_map,
      drafts_of_buildAll helements he]
  | ret value hvalue =>
    cases value with
    | none =>
      cases h
      rfl
    | some value =>
      rw [build] at h
      obtain ⟨value', hv, h⟩ := exists_of_bind_eq_ok h
      cases h
      rw [Expr.draft, canonical, hvalue value rfl _ hv]
  | block statements hstatements =>
    rw [build] at h
    obtain ⟨statements', hs, h⟩ := exists_of_bind_eq_ok h
    cases h
    rw [Expr.draft, canonical, Expr.drafts_eq_map, canonicalAll_eq_map,
      drafts_of_buildAll hstatements hs]
  | literal text =>
    cases h
    rfl

/-! ## Whole trees -/

theorem Tree.build_draft (tree : Tree) : tree.draft.build = .ok tree := by
  cases tree with
  | unit u =>
    rw [draft, TreeDraft.build, Draft.buildAll_draft fun e _ => e.build_draft]
    rfl
  | statement e =>
    rw [draft, TreeDraft.build, e.build_draft]
    rfl
  | expression e =>
    rw [draft, TreeDraft.build, e.build_draft]
    rfl

theorem TreeDraft.draft_of_build (draft : TreeDraft) (tree : Tree) (h : draft.build = .ok tree) :
    tree.draft = draft.canonical := by
  cases draft with
  | unit statements =>
    obtain ⟨es, hes, h⟩ := exists_of_bind_eq_ok h
    cases h
    rw [Tree.draft, canonical, Draft.drafts_of_buildAll (fun d _ => d.draft_of_build) hes]
  | statement draft =>
    obtain ⟨e, he, h⟩ := exists_of_bind_eq_ok h
    cases h
    rw [Tree.draft, canonical, draft.draft_of_build e he]
  | expression draft =>
    obtain ⟨e, he, h⟩ := exists_of_bind_eq_ok h
    cases h
    rw [Tree.draft, canonical, draft.draft_of_build e he]

/-! ## Equality of what was built -/

/-- What is read back as the canonical form of its source, and built again from that, is equal
exactly for sources with one canonical form. -/
theorem eq_iff_canonical_eq {α β : Type} {build : α → Except Fault β} {readBack : β → α}
    {canonical : α → α} (hbuild : ∀ b, build (readBack b) = .ok b)
    (hread : ∀ a b, build a = .ok b → readBack b = canonical a) {a a' : α} {b b' : β}
    (h : build a = .ok b) (h' : build a' = .ok b') : b = b' ↔ canonical a = canonical a' := by
  rw [← hread a b h, ← hread a' b' h']
  constructor
  · intro heq
    rw [heq]
  · intro hsource
    have hbuilt := hbuild b
    rw [hsource, hbuild b'] at hbuilt
    cases hbuilt
    rfl

/-- Taking an expression apart and building it again gives it back, and the expressions, or whole
trees, built from two drafts are equal exactly if the drafts are the same but for words for
operators and absent parameter lists. -/
theorem rebuilt_and_same_iff_canonical_eq :
    (∀ e : Expr, ∃ e', e.draft.build = .ok e' ∧ e'.same e = true) ∧
      (∀ (draft draft' : Draft) (e e' : Expr), draft.build = .ok e → draft'.build = .ok e' →
        (e.same e' = true ↔ draft.canonical = draft'.canonical)) ∧
      ∀ (draft draft' : TreeDraft) (tree tree' : Tree),
        draft.build = .ok tree → draft'.build = .ok tree' →
          ((tree == tree') = true ↔ draft.canonical = draft'.canonical) := by
  refine ⟨fun e => ?_, fun draft draft' e e' h h' => ?_, fun draft draft' tree tree' h h' => ?_⟩
  · exact ⟨e, e.build_draft, (e.same_iff e).mpr rfl⟩
  · rw [Expr.same_iff]
    exact eq_iff_canonical_eq Expr.build_draft Draft.draft_of_build h h'
  · rw [beq_iff_eq]
    exact eq_iff_canonical_eq Tree.build_draft TreeDraft.draft_of_build h h'

/-- `not a and [&]() { return b; }`, in words and without a parameter list. -/
def wordedConjunction : Draft :=
  .binary "and" (.prefixed "not" (.literal "a")) (.lambda (.literal "b") none)

/-- The same with C++ spellings and an empty parameter list. -/
def spelledConjunction : Draft :=
  .binary "&&" (.prefixed "!" (.literal "a")) (.lambda (.literal "b") (some []))

theorem same_wordedConjunction :
    ∃ e e', wordedConjunction.build = .ok e ∧ spelledConjunction.build = .ok e' ∧
      wordedConjunction.canonical = spelledConjunction.canonical ∧ e.same e' = true := by
  have hcanonical : wordedConjunction.canonical = spelledConjunction.canonical := rfl
  refine ⟨_, _, rfl, rfl, hcanonical, ?_⟩
  exact (rebuilt_and_same_iff_canonical_eq.2.1 wordedConjunction spelledConjunction _ _ rfl
    rfl).mpr hcanonical

end CppTree
