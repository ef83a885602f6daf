import CppTree.Draft
import CppTree.Proofs.Names
import CppTree.Proofs.Operators

/-!
# The first fault of a draft

Building a draft checks its nodes in `Draft.postorder`, each behind its parts.  It succeeds exactly
if all of them are valid, and ends with the fault of the first that is not.  `Reports` says this of
any construction; it passes through sequences (`Reports.bind`) and so up every draft
(`Draft.reports_build`).
-/

namespace CppTree

/-! ## Nodes -/

/-- Whether the texts of a node can be built, whatever its parts are. -/
def Draft.IsValid : Draft → Prop
  | binary token _ _ => Operator.IsToken BinaryOp token
  | prefixed token _ => Operator.IsToken PrefixOp token
  | suffixed token _ => Operator.IsToken SuffixOp token
  | access _ token member => Operator.IsToken AccessOp token ∧ IsMemberName member
  | allocation elementType _ => ∃ name, TypeName.ofText elementType = .ok name
  | _ => True

/-- Whether a node has this fault, apart from those of its parts.  The operator of an access is
checked before the member. -/
def Draft.Offends : Draft → Fault → Prop
  | binary token _ _, fault =>
    ¬ Operator.IsToken BinaryOp token ∧ fault = .unknownOperator .binary token
  | prefixed token _, fault =>
    ¬ Operator.IsToken PrefixOp token ∧ fault = .unknownOperator .prefixed token
  | suffixed token _, fault =>
    ¬ Operator.IsToken SuffixOp token ∧ fault = .unknownOperator .suffixed token
  | access _ token member, fault =>
    ¬ Operator.IsToken AccessOp token ∧ fault = .unknownOperator .access token ∨
      Operator.IsToken AccessOp token ∧ ¬ IsMemberName member ∧ fault = .invalidIdentifier member
  | allocation elementType _, fault =>
    (¬ ∃ name, TypeName.ofText elementType = .ok name) ∧ fault = .invalidTypeName elementType
  | _, _ => False

theorem Draft.Offends.not_isValid {node : Draft} {fault : Fault} (h : node.Offends fault) :
    ¬ node.IsValid := by
  cases node with
  | binary | prefixed | suffixed | allocation => exact h.1
  | access =>
    rcases h with h | h
    · exact fun hvalid => h.1 hvalid.1
    · exact fun hvalid => h.2.1 hvalid.2
  | _ => exact h.elim

theorem Draft.Offends.unique {node : Draft} {fault fault' : Fault} (h : node.Offends fault)
    (h' : node.Offends fault') : fault = fault' := by
  cases node with
  | binary | prefixed | suffixed | allocation => rw [h.2, h'.2]
  | access =>
    rcases h with h | h <;> rcases h' with h' | h'
    · rw [h.2, h'.2]
    · exact absurd h'.1 h.1
    · exact absurd h.1 h'.1
    · rw [h.2.2, h'.2.2]
  | _ => exact h.elim

mutual

/-- The nodes of a draft in the order in which they are built: each behind its parts, and the parts
in the order of the constructor. -/
def Draft.postorder : Draft → List Draft
  | .assign target value => target.postorder ++ value.postorder ++ [.assign target value]
  | .binary token left right => left.postorder ++ right.postorder ++ [.binary token left right]
  | .prefixed token operand => operand.postorder ++ [.prefixed token operand]
  | .suffixed token operand => operand.postorder ++ [.suffixed token operand]
  | .index base position => base.postorder ++ position.postorder ++ [.index base position]
  | .call callee arguments =>
    callee.postorder ++ Draft.postorderAll arguments ++ [.call callee arguments]
  | .lambda body none => body.postorder ++ [.lambda body none]
  | .lambda body (some parameters) =>
    body.postorder ++ Draft.postorderAll parameters ++ [.lambda body (some parameters)]
  | .access base token member => base.postorder ++ [.access base token member]
  | .allocation elementType dimensions =>
    Draft.postorderAll dimensions ++ [.allocation elementType dimensions]
  | .conditional condition thenBranch elseBranch =>
    condition.postorder ++ thenBranch.postorder ++ elseBranch.postorder ++
      [.conditional condition thenBranch elseBranch]
  | .tuple elements => Draft.postorderAll elements ++ [.tuple elements]
  | .ret none => [.ret none]
  | .ret (some value) => value.postorder ++ [.ret (some value)]
  | .block statements => Draft.postorderAll statements ++ [.block statements]
  | .literal text => [.literal text]

def Draft.postorderAll : List Draft → List Draft
  | [] => []
  | draft :: drafts => draft.postorder ++ Draft.postorderAll drafts

end

/-- The nodes of a whole tree.  A unit has no texts of its own, so it is not counted. -/
def TreeDraft.postorder : TreeDraft → List Draft
  | unit statements => Draft.postorderAll statements
  | statement draft | expression draft => draft.postorder

/-! ## Constructions that report the first fault -/

/-- Whether a construction that checks these nodes one after another ends with the fault of the
first invalid one, and succeeds if there is none. -/
def Reports {α : Type} (nodes : List Draft) : Except Fault α → Prop
  | .ok _ => ∀ node ∈ nodes, node.IsValid
  | .error fault => ∃ before node after, nodes = before ++ node :: after ∧
      (∀ x ∈ before, x.IsValid) ∧ node.Offends fault

namespace Reports

variable {α β : Type} {nodes more : List Draft} {x : Except Fault α} {node : Draft}

theorem nothing {a : α} : Reports [] (pure a : Except Fault α) :=
  List.forall_mem_nil _

theorem valid {a : α} (h : node.IsValid) : Reports [node] (pure a : Except Fault α) :=
  List.forall_mem_singleton.mpr h

theorem fault {fault : Fault} (h : node.Offends fault) :
    Reports [node] (.error fault : Except Fault α) :=
  ⟨[], node, [], rfl, List.forall_mem_nil _, h⟩

theorem bind {f : α → Except Fault β} (hx : Reports nodes x) (hf : ∀ a, Reports more (f a)) :
    Reports (nodes ++ more) (x >>= f) := by
  cases x with
  | error fault =>
    obtain ⟨before, node, after, hnodes, hbefore, hnode⟩ := hx
    refine ⟨before, node, after ++ more, ?_, hbefore, hnode⟩
    rw [hnodes, List.append_assoc, List.cons_append]
  | ok a =>
    have hmore := hf a
    show Reports (nodes ++ more) (f a)
    cases hresult : f a with
    | ok b =>
      rw [hresult] at hmore
      exact List.forall_mem_append.mpr ⟨hx, hmore⟩
    | error fault =>
      rw [hresult] at hmore
      obtain ⟨before, node, after, hnodes, hbefore, hnode⟩ := hmore
      refine ⟨nodes ++ before, node, after, ?_, List.forall_mem_append.mpr ⟨hx, hbefore⟩, hnode⟩
      rw [hnodes, List.append_assoc]

theorem exists_ok_iff (h : Reports nodes x) :
    (∃ a, x = .ok a) ↔ ∀ node ∈ nodes, node.IsValid := by
  cases x with
  | ok a => exact ⟨fun _ => h, fun _ => ⟨a, rfl⟩⟩
  | error fault =>
    obtain ⟨before, node, after, hnodes, -, hnode⟩ := h
    constructor
    · rintro ⟨a, ha⟩
      cases ha
    · intro hvalid
      exact absurd (hvalid node (by rw [hnodes]; simp)) hnode.not_isValid

/-- A list has one first invalid node. -/
theorem first_unique {before after before' after' : List Draft} {node node' : Draft}
    (h : before ++ node :: after = before' ++ node' :: after') (hbefore : ∀ x ∈ before, x.IsValid)
    (hnode : ¬ node.IsValid) (hbefore' : ∀ x ∈ before', x.IsValid) (hnode' : ¬ node'.IsValid) :
    node = node' := by
  classical
  have hfind {before after : List Draft} {node : Draft} (hbefore : ∀ x ∈ before, x.IsValid)
      (hnode : ¬ node.IsValid) :
      (before ++ node :: after).find? (fun x => decide ¬ x.IsValid) = some node :=
    List.find?_eq_some_iff_append.mpr
      ⟨by simpa using hnode, before, after, rfl, fun x hx => by simpa using hbefore x hx⟩
  have hfirst : (before ++ node :: after).find? (fun x => decide ¬ x.IsValid) = some node :=
    hfind hbefore hnode
  rw [h, hfind hbefore' hnode'] at hfirst
  exact (Option.some.inj hfirst).symm

theorem eq_error_iff (h : Reports nodes x) (fault : Fault) :
    x = .error fault ↔ ∃ before node after, nodes = before ++ node :: after ∧
      (∀ y ∈ before, y.IsValid) ∧ node.Offends fault := by
  constructor
  · rintro rfl
    exact h
  · rintro ⟨before, node, after, hnodes, hbefore, hnode⟩
    cases x with
    | ok a => exact absurd (h node (by rw [hnodes]; simp)) hnode.not_isValid
    | error fault' =>
      obtain ⟨before', node', after', hnodes', hbefore', hnode'⟩ := h
      rw [hnodes] at hnodes'
      obtain rfl := first_unique hnodes' hbefore hnode.not_isValid hbefore' hnode'.not_isValid
      rw [hnode.unique hnode']

/-! ## Single nodes -/

/-- A node whose only text is an operator reports that operator. -/
theorem operator {γ : Type} [Operator γ] [Operator.Lawful γ] {token : String} {f : γ → α}
    (hvalid : Operator.IsToken γ token → node.IsValid)
    (hfault : ¬ Operator.IsToken γ token →
      node.Offends (.unknownOperator (Operator.fixity γ) token)) :
    Reports [node] (do return f (← Operator.ofToken token)) := by
  unfold Operator.ofToken
  split
  · next op hop => exact valid (hvalid (Operator.isToken_iff.mpr ⟨op, hop⟩))
  · next hnone => exact fault (hfault (Operator.ofToken?_eq_none_iff.mp hnone))

theorem access (base : Draft) (base' : Expr) (token member : String) :
    Reports [.access base token member] (Expr.accessOf base' token member) := by
  unfold Expr.accessOf Operator.ofToken
  split
  · next op hop =>
    have htoken : Operator.IsToken AccessOp token := Operator.isToken_iff.mpr ⟨op, hop⟩
    unfold Identifier.ofText
    split
    · next hmember =>
      have hvalid : (Draft.access base token member).IsValid :=
        ⟨htoken, isIdentifier_iff.mp hmember⟩
      exact valid hvalid
    · next hmember =>
      exact fault (.inr ⟨htoken, fun h => hmember (isIdentifier_iff.mpr h), rfl⟩)
  · next hnone =>
    -- The member is not looked at when the operator is unknown.
    have htoken := Operator.ofToken?_eq_none_iff.mp hnone
    exact fault (.inl ⟨htoken, rfl⟩)

theorem allocation (elementType : String) (dimensions : List Draft) (dimensions' : List Expr) :
    Reports [.allocation elementType dimensions] (Expr.allocationOf elementType dimensions') := by
  unfold Expr.allocationOf
  cases hname : TypeName.ofText elementType with
  | ok name =>
    have hvalid : (Draft.allocation elementType dimensions).IsValid := ⟨name, hname⟩
    exact valid hvalid
  | error reason =>
    have hreason : reason = .invalidTypeName elementType := by
      unfold TypeName.ofText at hname
      split at hname <;> cases hname
      rfl
    refine fault ⟨?_, hreason⟩
    rintro ⟨name, hok⟩
    rw [hname] at hok
    cases hok

end Reports

/-! ## Drafts -/

theorem Draft.reports_buildAll {drafts : List Draft}
    (h : ∀ draft ∈ drafts, Reports draft.postorder draft.build) :
    Reports (postorderAll drafts) (buildAll drafts) := by
  induction drafts with
  | nil => exact .nothing
  | cons draft drafts ih =>
    rw [postorderAll, buildAll, ← List.append_nil (postorderAll drafts)]
    exact (h draft (by simp)).bind fun _ =>
      (ih fun d hd => h d (by simp [hd])).bind fun _ => .nothing

/-- Building a draft reports the first fault among its nodes. -/
theorem Draft.reports_build (draft : Draft) : Reports draft.postorder draft.build := by
  induction draft using Draft.induct with
  | assign target value htarget hvalue =>
    rw [postorder, build, List.append_assoc]
    refine htarget.bind fun _ => hvalue.bind fun _ => ?_
    exact .valid trivial
  | binary token left right hleft hright =>
    rw [postorder, build, List.append_assoc]
    exact hleft.bind fun _ => hright.bind fun _ => .operator id fun h => ⟨h, rfl⟩
  | prefixed token operand hoperand =>
    rw [postorder, build]
    exact hoperand.bind fun _ => .operator id fun h => ⟨h, rfl⟩
  | suffixed token operand hoperand =>
    rw [postorder, build]
    exact hoperand.bind fun _ => .operator id fun h => ⟨h, rfl⟩
  | index base position hbase hposition =>
    rw [postorder, build, List.append_assoc]
    refine hbase.bind fun _ => hposition.bind fun _ => ?_
    exact .valid trivial
  | call callee arguments hcallee harguments =>
    rw [postorder, build, List.append_assoc]
    refine hcallee.bind fun _ => (reports_buildAll harguments).bind fun _ => ?_
    exact .valid trivial
  | lambda body parameters hbody hparameters =>
    cases parameters with
    | none =>
      rw [postorder, build]
      refine hbody.bind fun _ => ?_
      exact .valid trivial
    | some parameters =>
      rw [postorder, build, List.append_assoc]
      refine hbody.bind fun _ => (reports_buildAll hparameters).bind fun _ => ?_
      exact .valid trivial
  | access base token member hbase =>
    rw [postorder, build]
    exact hbase.bind fun base' => .access base base' token member
  | allocation elementType dimensions hdimensions =>
    rw [postorder, build]
    exact (reports_buildAll hdimensions).bind fun dimensions' =>
      .allocation elementType dimensions dimensions'
  | conditional condition thenBranch elseBranch hcondition hthen helse =>
    rw [postorder, build, List.append_assoc, List.append_assoc]
    refine hcondition.bind fun _ => hthen.bind fun _ => helse.bind fun _ => ?_
    exact .valid trivial
  | tuple elements helements =>
    rw [postorder, build]
    refine (reports_buildAll helements).bind fun _ => ?_
    exact .valid trivial
  | ret value hvalue =>
    cases value with
    | none =>
      rw [postorder, build]
      exact .valid trivial
    | some value =>
      rw [postorder, build]
      refine (hvalue value rfl).bind fun _ => ?_
      exact .valid trivial
  | block statements hstatements =>
    rw [postorder, build]
    refine (reports_buildAll hstatements).bind fun _ => ?_
    exact .valid trivial
  | literal text =>
    rw [postorder, build]
    exact .valid trivial

theorem TreeDraft.reports_build (draft : TreeDraft) : Reports draft.postorder draft.build := by
  cases draft with
  | unit statements =>
    rw [build, ← List.append_nil (postorder _)]
    exact (Draft.reports_buildAll fun draft _ => draft.reports_build).bind fun _ => .nothing
  | statement draft =>
    rw [build, ← List.append_nil (postorder _)]
    exact draft.reports_build.bind fun _ => .nothing
  | expression draft =>
    rw [build, ← List.append_nil (postorder _)]
    exact draft.reports_build.bind fun _ => .nothing

/-- A tree is built exactly if every node of its draft is valid; else the result is the fault of the
first node that is not, whatever is wrong behind or around it. -/
theorem TreeDraft.build_valid_or_first_fault (draft : TreeDraft) :
    ((∃ tree, draft.build = .ok tree) ↔ ∀ node ∈ draft.postorder, node.IsValid) ∧
      ∀ fault, draft.build = .error fault ↔
        ∃ before node after, draft.postorder = before ++ node :: after ∧
          (∀ x ∈ before, x.IsValid) ∧ node.Offends fault :=
  ⟨draft.reports_build.exists_ok_iff, draft.reports_build.eq_error_iff⟩

-- Of three faults, the one that is built first: an operator, before the member next to it and
-- before the operator around it.
example : (TreeDraft.expression (.prefixed "++-" (.access (.literal "p") "=>" ""))).build =
    .error (.unknownOperator .access "=>") := rfl

end CppTree
