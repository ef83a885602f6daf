import CppTree.Expr.Construct
import CppTree.Tree

/-!
# Drafts

A draft describes a tree in plain strings, before anything is checked.  `Draft.build` turns it into
an expression from the leaves up, or reports the first fault on the way; `Expr.draft` reads an
expression back as the draft with canonical spellings.
-/

namespace CppTree

/-- An expression with unchecked texts: operator tokens, member names and element types may be any
string, and a lambda may come without a parameter list. -/
inductive Draft where
  | assign (target value : Draft)
  | binary (token : String) (left right : Draft)
  | prefixed (token : String) (operand : Draft)
  | suffixed (token : String) (operand : Draft)
  | index (base position : Draft)
  | call (callee : Draft) (arguments : List Draft)
  | lambda (body : Draft) (parameters : Option (List Draft))
  | access (base : Draft) (token member : String)
  | allocation (elementType : String) (dimensions : List Draft)
  | conditional (condition thenBranch elseBranch : Draft)
  | tuple (elements : List Draft)
  | ret (value : Option Draft)
  | block (statements : List Draft)
  | literal (text : String)

instance : Inhabited Draft := ⟨.literal ""⟩

/-- Induction over drafts, together with the lists in them. -/
@[elab_as_elim]
theorem Draft.induct {motive : Draft → Prop}
    (assign : ∀ target value, motive target → motive value → motive (.assign target value))
    (binary : ∀ token left right, motive left → motive right → motive (.binary token left right))
    (prefixed : ∀ token operand, motive operand → motive (.prefixed token operand))
    (suffixed : ∀ token operand, motive operand → motive (.suffixed token operand))
    (index : ∀ base position, motive base → motive position → motive (.index base position))
    (call : ∀ callee arguments, motive callee → (∀ d ∈ arguments, motive d) →
      motive (.call callee arguments))
    (lambda : ∀ body parameters, motive body → (∀ d ∈ parameters.getD [], motive d) →
      motive (.lambda body parameters))
    (access : ∀ base token member, motive base → motive (.access base token member))
    (allocation : ∀ elementType dimensions, (∀ d ∈ dimensions, motive d) →
      motive (.allocation elementType dimensions))
    (conditional : ∀ condition thenBranch elseBranch, motive condition → motive thenBranch →
      motive elseBranch → motive (.conditional condition thenBranch elseBranch))
    (tuple : ∀ elements, (∀ d ∈ elements, motive d) → motive (.tuple elements))
    (ret : ∀ value : Option Draft, (∀ d ∈ value, motive d) → motive (.ret value))
    (block : ∀ statements, (∀ d ∈ statements, motive d) → motive (.block statements))
    (literal : ∀ text, motive (.literal text)) (d : Draft) : motive d := by
  refine @Draft.rec motive (fun ds => ∀ d ∈ ds, motive d)
    (fun parameters => ∀ d ∈ parameters.getD [], motive d) (fun value => ∀ d ∈ value, motive d)
    assign binary prefixed suffixed index call lambda access allocation conditional tuple ret block
    literal ?_ ?_ ?_ ?_ ?_ ?_ d
  · simp
  · intro first rest hfirst hrest d hd
    rcases List.mem_cons.mp hd with rfl | hd
    · exact hfirst
    · exact hrest d hd
  · simp
  · intro parameters hparameters
    exact hparameters
  · simp
  · intro value hvalue d hd
    cases hd
    exact hvalue

mutual

/-- Builds the parts of a draft from left to right and then the node itself.  The first fault ends
the construction. -/
def Draft.build : Draft → Except Fault Expr
  | .assign target value => do return .assign (← target.build) (← value.build)
  | .binary token left right => do Expr.binaryOf token (← left.build) (← right.build)
  | .prefixed token operand => do Expr.prefixedOf token (← operand.build)
  | .suffixed token operand => do Expr.suffixedOf token (← operand.build)
  | .index base position => do return .index (← base.build) (← position.build)
  | .call callee arguments => do return .call (← callee.build) (← Draft.buildAll arguments)
  | .lambda body none => do return Expr.lambdaOf (← body.build) none
  | .lambda body (some parameters) => do
    return Expr.lambdaOf (← body.build) (some (← Draft.buildAll parameters))
  | .access base token member => do Expr.accessOf (← base.build) token member
  | .allocation elementType dimensions => do
    Expr.allocationOf elementType (← Draft.buildAll dimensions)
  | .conditional condition thenBranch elseBranch => do
    return .conditional (← condition.build) (← thenBranch.build) (← elseBranch.build)
  | .tuple elements => do return .tuple (← Draft.buildAll elements)
  | .ret none => return .ret none
  | .ret (some value) => do return .ret (some (← value.build))
  | .block statements => do return .block (← Draft.buildAll statements)
  | .literal text => return .literal text

/-- Builds a list of drafts from the first to the last. -/
def Draft.buildAll : List Draft → Except Fault (List Expr)
  | [] => return []
  | draft :: drafts => do return (← draft.build) :: (← Draft.buildAll drafts)

end

/-! ## Reading back -/

mutual

/-- The draft with canonical spellings from which an expression is built. -/
def Expr.draft : Expr → Draft
  | .assign target value => .assign target.draft value.draft
  | .binary op left right => .binary op.spelling left.draft right.draft
  | .prefixed op operand => .prefixed op.spelling operand.draft
  | .suffixed op operand => .suffixed op.spelling operand.draft
  | .index base position => .index base.draft position.draft
  | .call callee arguments => .call callee.draft (Expr.drafts arguments)
  | .lambda body parameters => .lambda body.draft (some (Expr.drafts parameters))
  | .access base op member => .access base.draft op.spelling member.text
  | .allocation elementType dimensions => .allocation elementType.text (Expr.drafts dimensions)
  | .conditional condition thenBranch elseBranch =>
    .conditional condition.draft thenBranch.draft elseBranch.draft
  | .tuple elements => .tuple (Expr.drafts elements)
  | .ret none => .ret none
  | .ret (some value) => .ret (some value.draft)
  | .block statements => .block (Expr.drafts statements)
  | .literal text => .literal text

def Expr.drafts : List Expr → List Draft
  | [] => []
  | e :: es => e.draft :: Expr.drafts es

end

@[simp]
theorem Expr.drafts_eq_map (es : List Expr) : Expr.drafts es = es.map Expr.draft := by
  induction es with
  | nil => simp [Expr.drafts]
  | cons e es ih => simp [Expr.drafts, ih]

/-! ## Whole trees -/

inductive TreeDraft where
  | unit (statements : List Draft)
  | statement (draft : Draft)
  | expression (draft : Draft)
deriving Inhabited

def TreeDraft.build : TreeDraft → Except Fault Tree
  | unit statements => do return .unit ⟨← Draft.buildAll statements⟩
  | statement draft => do return .statement (← draft.build)
  | expression draft => do return .expression (← draft.build)

/-- Reads a tree back with canonical spellings. -/
def Tree.draft : Tree → TreeDraft
  | unit ⟨statements⟩ => .unit (statements.map Expr.draft)
  | statement e => .statement e.draft
  | expression e => .expression e.draft

end CppTree
