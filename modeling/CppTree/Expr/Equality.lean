import CppTree.Expr.Basic

/-!
# Equality of expressions

Two expressions are equal when they have the same shape, the same operators and the same texts.
Main statement: `Expr.same_iff`, from which equality is decidable.
-/

namespace CppTree

mutual

/-- Compares two expressions construct by construct. -/
def Expr.same : Expr → Expr → Bool
  | .assign target value, .assign target' value' => target.same target' && value.same value'
  | .binary op left right, .binary op' left' right' =>
    op == op' && left.same left' && right.same right'
  | .prefixed op operand, .prefixed op' operand' => op == op' && operand.same operand'
  | .suffixed op operand, .suffixed op' operand' => op == op' && operand.same operand'
  | .index base position, .index base' position' => base.same base' && position.same position'
  | .call callee arguments, .call callee' arguments' =>
    callee.same callee' && Expr.sameAll arguments arguments'
  | .lambda body parameters, .lambda body' parameters' =>
    body.same body' && Expr.sameAll parameters parameters'
  | .access base op member, .access base' op' member' =>
    base.same base' && op == op' && member == member'
  | .allocation elementType dimensions, .allocation elementType' dimensions' =>
    elementType == elementType' && Expr.sameAll dimensions dimensions'
  | .conditional condition yes no, .conditional condition' yes' no' =>
    condition.same condition' && yes.same yes' && no.same no'
  | .tuple elements, .tuple elements' => Expr.sameAll elements elements'
  | .ret none, .ret none => true
  | .ret (some value), .ret (some value') => value.same value'
  | .block statements, .block statements' => Expr.sameAll statements statements'
  | .literal text, .literal text' => text == text'
  | _, _ => false

/-- Compares two lists of expressions member by member. -/
def Expr.sameAll : List Expr → List Expr → Bool
  | [], [] => true
  | e :: es, e' :: es' => e.same e' && Expr.sameAll es es'
  | _, _ => false

end

namespace Expr

theorem sameAll_iff {es es' : List Expr} (h : ∀ e ∈ es, ∀ e', e.same e' = true ↔ e = e') :
    sameAll es es' = true ↔ es = es' := by
  induction es generalizing es' with
  | nil => cases es' <;> simp [sameAll]
  | cons e es ih =>
    cases es' with
    | nil => simp [sameAll]
    | cons e' es' =>
      have hhead := h e (by simp) e'
      have htail := @ih es' fun d hd => h d (by simp [hd])
      simp [sameAll, hhead, htail]

/-- Comparison decides equality. -/
theorem same_iff (e e' : Expr) : e.same e' = true ↔ e = e' := by
  induction e using Expr.induct generalizing e' with
  | ret value hvalue =>
    cases value with
    | none =>
      rcases e' with _ | _ | _ | _ | _ | _ | _ | _ | _ | _ | _ | (_ | _) | _ | _ <;> simp [same]
    | some value =>
      rcases e' with _ | _ | _ | _ | _ | _ | _ | _ | _ | _ | _ | (_ | _) | _ | _ <;>
        simp [same, hvalue value rfl]
  | call callee arguments hcallee harguments =>
    cases e' <;> simp [same, hcallee, sameAll_iff harguments]
  | lambda body parameters hbody hparameters =>
    cases e' <;> simp [same, hbody, sameAll_iff hparameters]
  | allocation elementType dimensions hdimensions =>
    cases e' <;> simp [same, sameAll_iff hdimensions]
  | tuple elements helements => cases e' <;> simp [same, sameAll_iff helements]
  | block statements hstatements => cases e' <;> simp [same, sameAll_iff hstatements]
  | assign target value htarget hvalue => cases e' <;> simp [same, htarget, hvalue]
  | binary op left right hleft hright => cases e' <;> simp [same, hleft, hright, and_assoc]
  | prefixed op operand hoperand => cases e' <;> simp [same, hoperand]
  | suffixed op operand hoperand => cases e' <;> simp [same, hoperand]
  | index base position hbase hposition => cases e' <;> simp [same, hbase, hposition]
  | access base op member hbase => cases e' <;> simp [same, hbase, and_assoc]
  | conditional condition yes no hcondition hyes hno =>
    cases e' <;> simp [same, hcondition, hyes, hno, and_assoc]
  | literal text => cases e' <;> simp [same]

instance : DecidableEq Expr := fun e e' => decidable_of_iff (e.same e' = true) (same_iff e e')

end Expr

end CppTree
