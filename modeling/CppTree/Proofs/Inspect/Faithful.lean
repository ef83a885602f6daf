import CppTree.Inspect.Tree
import CppTree.Proofs.Inspect.Reading
import CppTree.Proofs.Names

/-!
# Faithful inspection

The form of a tree shows all of it: equal forms are those of equal trees, although member names and
element types stand in them without quotes.  An element type can imitate the fields around it, but
not the bracket behind them, and that tells where it ends.  Main statements:
`Expr.readsBack_inspect` and `same_iff_inspect_eq`.
-/

namespace CppTree

open Inspect

/-! ## Names -/

/-- Texts that tell their owners apart and hold only the characters of names. -/
structure AreNames {α : Type} (name : α → String) : Prop where
  injective : Function.Injective name
  wellSpelled : ∀ a, ∀ c ∈ (name a).toList, isNameChar c = true

/-- Names tell the members of a finite family apart if each can be looked up by its name. -/
theorem AreNames.of_find? {α : Type} {name : α → String} (all : List α)
    (hfind : ∀ a, all.find? (fun b => name b == name a) = some a)
    (hchars : ∀ a, (name a).toList.all isNameChar = true) : AreNames name where
  injective a b hname := Option.some.inj (by rw [← hfind a, ← hfind b, hname])
  wellSpelled a := List.all_eq_true.mp (hchars a)

theorem areNames_kind : AreNames Kind.label :=
  .of_find? Kind.all (fun kind => by cases kind <;> decide) fun kind => by cases kind <;> decide

theorem areNames_binary : AreNames BinaryOp.label :=
  .of_find? BinaryOp.all (fun op => by cases op <;> decide) fun op => by cases op <;> decide

theorem areNames_prefixed : AreNames PrefixOp.label :=
  .of_find? PrefixOp.all (fun op => by cases op <;> decide) fun op => by cases op <;> decide

theorem areNames_suffixed : AreNames SuffixOp.label :=
  .of_find? SuffixOp.all (fun op => by cases op <;> decide) fun op => by cases op <;> decide

theorem areNames_access : AreNames AccessOp.label :=
  .of_find? AccessOp.all (fun op => by cases op <;> decide) fun op => by cases op <;> decide

theorem areNames_identifier : AreNames Identifier.text where
  injective := fun ⟨_, _⟩ ⟨_, _⟩ h => by cases h; rfl
  wellSpelled name _ := isNameChar_of_isIdentifier name.wellSpelled

/-! ## Fields -/

/-- The fields of a record behind the first one, with the end of the record and of the constructor
around it. -/
def moreFields : List (String × String) → List Char
  | [] => [' ', '}', ')']
  | (name, value) :: fields =>
    ", ".toList ++ name.toList ++ ": ".toList ++ value.toList ++ moreFields fields

theorem toList_intercalate_fields (name value : String) (fields : List (String × String)) :
    (", ".intercalate (((name, value) :: fields).map
        fun field => field.1 ++ ": " ++ field.2)).toList ++ [' ', '}', ')'] =
      name.toList ++ ": ".toList ++ (value.toList ++ moreFields fields) := by
  induction fields generalizing name value with
  | nil => simp [moreFields, String.toList_append]
  | cons field fields ih =>
    obtain ⟨next, shown⟩ := field
    have htail := ih next shown
    rw [List.map_cons] at htail ⊢
    rw [List.map_cons, String.intercalate_cons_cons, String.toList_append, List.append_assoc, htail]
    simp [moreFields, String.toList_append]

theorem Kind.toList_inspect (kind : Kind) (name value : String) (fields : List (String × String)) :
    (kind.inspect ((name, value) :: fields)).toList =
      kind.label.toList ++ '(' :: (kind.label.toList ++ [' ', '{', ' '] ++ (name.toList ++
        ": ".toList ++ (value.toList ++ moreFields fields))) := by
  rw [← toList_intercalate_fields]
  simp [Kind.inspect, applied, record, String.toList_append]

theorem Kind.eq_of_inspect {kind : Kind} {name value value' : String}
    {fields fields' : List (String × String)} {rest rest' : List Char}
    (h : (kind.inspect ((name, value) :: fields)).toList ++ rest =
      (kind.inspect ((name, value') :: fields')).toList ++ rest') :
    value.toList ++ (moreFields fields ++ rest) =
      value'.toList ++ (moreFields fields' ++ rest') := by
  simpa [Kind.toList_inspect] using h

theorem eq_of_moreFields {name value value' : String} {fields fields' : List (String × String)}
    {rest rest' : List Char} (h : moreFields ((name, value) :: fields) ++ rest =
      moreFields ((name, value') :: fields') ++ rest') :
    value.toList ++ (moreFields fields ++ rest) =
      value'.toList ++ (moreFields fields' ++ rest') := by
  simpa [moreFields] using h

/-- A name in a field ends where the name characters end. -/
theorem AreNames.eq_of_field {α : Type} {name : α → String} (h : AreNames name) {a b : α}
    {fields fields' : List (String × String)} {rest rest' : List Char}
    (hfield : (name a).toList ++ (moreFields fields ++ rest) =
      (name b).toList ++ (moreFields fields' ++ rest')) :
    a = b ∧ moreFields fields ++ rest = moreFields fields' ++ rest' := by
  have hend (fields : List (String × String)) (rest : List Char) :
      ∃ c cs, moreFields fields ++ rest = c :: cs ∧ isNameChar c = false := by
    cases fields with
    | nil => exact ⟨' ', _, rfl, rfl⟩
    | cons field fields => exact ⟨',', _, rfl, rfl⟩
  obtain ⟨c, cs, hcs, hc⟩ := hend fields rest
  obtain ⟨d, ds, hds, hd⟩ := hend fields' rest'
  rw [hcs, hds] at hfield ⊢
  obtain ⟨hname, hhead, htail⟩ := eq_of_run (h.wellSpelled a) (h.wellSpelled b) hc hd hfield
  exact ⟨h.injective (String.toList_injective hname), by rw [hhead, htail]⟩

/-! ## Kinds -/

theorem Expr.toList_inspect (hidden : Char → Bool) (e : Expr) :
    ∃ cs, (e.inspect hidden).toList = e.kind.label.toList ++ '(' :: cs := by
  have happlied (name content : String) :
      ∃ cs, (applied name content).toList = name.toList ++ '(' :: cs :=
    ⟨content.toList ++ [')'], by simp [applied, String.toList_append]⟩
  cases e with
  | ret value => cases value <;> exact happlied _ _
  | _ => exact happlied _ _

/-- The form of an expression begins with its kind. -/
theorem Expr.kind_eq_of_inspect {hidden : Char → Bool} {e e' : Expr} {rest rest' : List Char}
    (h : (e.inspect hidden).toList ++ rest = (e'.inspect hidden).toList ++ rest') :
    e.kind = e'.kind := by
  obtain ⟨cs, hcs⟩ := e.toList_inspect hidden
  obtain ⟨ds, hds⟩ := e'.toList_inspect hidden
  rw [hcs, hds, List.append_assoc, List.append_assoc] at h
  have hlabel := eq_of_run (areNames_kind.wellSpelled _) (areNames_kind.wellSpelled _)
    (by decide) (by decide) h
  exact areNames_kind.injective (String.toList_injective hlabel.1)

theorem Expr.inspect_append_ne (hidden : Char → Bool) (e : Expr) (cs rest : List Char) :
    (e.inspect hidden).toList ++ cs ≠ ']' :: rest := by
  intro h
  obtain ⟨ds, hds⟩ := e.toList_inspect hidden
  rw [hds, List.append_assoc] at h
  have hlabel := eq_of_run (areNames_kind.wellSpelled e.kind) (List.forall_mem_nil _) rfl rfl h
  exact absurd hlabel.2.1 (by decide)

theorem Expr.readsBack_listed {hidden : Char → Bool} {es : List Expr}
    (h : ∀ e ∈ es, ReadsBack (Expr.inspect hidden) e) :
    ReadsBack (fun es => listed (es.map (Expr.inspect hidden))) es :=
  .listed h (Expr.inspect_append_ne hidden)

theorem Expr.readsBack_statements {hidden : Char → Bool} {es : List Expr}
    (h : ∀ e ∈ es, ReadsBack (Expr.inspect hidden) e) :
    ReadsBack (fun es => listed (es.map fun e => inspectStatement (e.inspect hidden))) es := by
  refine .listed (fun e he => (h e he).applied "Expression") fun e cs rest hstart => ?_
  simp [inspectStatement, applied, String.toList_append] at hstart

/-! ## Element types -/

/-- Two texts that go on alike behind their last opening square bracket are the same before it. -/
theorem eq_of_last_bracket {xs ys cs ds : List Char} (hcs : ∀ c ∈ cs, c ≠ '[')
    (hds : ∀ d ∈ ds, d ≠ '[') (h : xs ++ '[' :: cs = ys ++ '[' :: ds) : xs = ys := by
  have hreverse : cs.reverse ++ '[' :: xs.reverse = ds.reverse ++ '[' :: ys.reverse := by
    simpa using congrArg List.reverse h
  have hsplit := eq_of_run (p := (· != '[')) (by simpa using hcs) (by simpa using hds) rfl rfl
    hreverse
  exact List.reverse_inj.mp hsplit.2.2

/-- Behind an element type, the characters that a type may have go on into the dimensions, up to
one bracket and the characters `run`. -/
theorem moreFields_dimensions (hidden : Char → Bool) (dimensions : List Expr) (rest : List Char) :
    ∃ run c cs,
      moreFields [("dimensions", listed (dimensions.map (Expr.inspect hidden)))] ++ rest =
        ", dimensions: ".toList ++ '[' :: (run ++ c :: cs) ∧
      (∀ x ∈ run, isTypeChar x = true ∧ x ≠ '[') ∧ isTypeChar c = false := by
  cases dimensions with
  | nil =>
    exact ⟨[']', ' '], '}', ')' :: rest, by simp [moreFields, toList_listed_nil],
      by simp [isTypeChar], rfl⟩
  | cons size sizes =>
    obtain ⟨cs, hcs⟩ := size.toList_inspect hidden
    refine ⟨size.kind.label.toList, '(',
      cs ++ Inspect.moreItems (sizes.map (Expr.inspect hidden)) ++ moreFields [] ++ rest,
      ?_, fun x hx => ?_, rfl⟩
    · simp [moreFields, toList_listed_cons, hcs]
    · have hname := areNames_kind.wellSpelled size.kind x hx
      refine ⟨by rw [isTypeChar, hname, Bool.true_or], ?_⟩
      rintro rfl
      cases hname

/-- The type of an allocation ends where its dimensions begin, whatever it imitates: at the last
opening square bracket before the first character that no type has. -/
theorem TypeName.eq_of_field {hidden : Char → Bool} {elementType elementType' : TypeName}
    {dimensions dimensions' : List Expr} {rest rest' : List Char}
    (h : elementType.text.toList ++
        (moreFields [("dimensions", listed (dimensions.map (Expr.inspect hidden)))] ++ rest) =
      elementType'.text.toList ++
        (moreFields [("dimensions", listed (dimensions'.map (Expr.inspect hidden)))] ++ rest')) :
    elementType = elementType' := by
  obtain ⟨run, c, cs, hcs, hrun, hc⟩ := moreFields_dimensions hidden dimensions rest
  obtain ⟨run', d, ds, hds, hrun', hd⟩ := moreFields_dimensions hidden dimensions' rest'
  have hlabel : ", dimensions: ".toList.all isTypeChar = true := by decide
  have hall (name : TypeName) {run : List Char} (hrun : ∀ x ∈ run, isTypeChar x = true ∧ x ≠ '[') :
      ∀ x ∈ name.text.toList ++ ", dimensions: ".toList ++ '[' :: run, isTypeChar x = true := by
    intro x hx
    rcases List.mem_append.mp hx with hx | hx
    · rcases List.mem_append.mp hx with hx | hx
      · exact isTypeChar_of_isTypeName name.wellSpelled hx
      · exact List.all_eq_true.mp hlabel x hx
    · rcases List.mem_cons.mp hx with rfl | hx
      · rfl
      · exact (hrun x hx).1
  rw [hcs, hds] at h
  have htypes :=
    eq_of_run (hall elementType hrun) (hall elementType' hrun') hc hd (by simpa using h)
  have hbefore :=
    eq_of_last_bracket (fun x hx => (hrun x hx).2) (fun x hx => (hrun' x hx).2) htypes.1
  have htext := String.toList_injective (List.append_cancel_right hbefore)
  obtain ⟨text, _⟩ := elementType
  obtain ⟨text', _⟩ := elementType'
  cases htext
  rfl

/-- The first list of dimensions belongs to the element type. -/
example : (Tree.expression (.allocation ⟨"a, dimensions: []", by decide⟩ [])).inspect =
    "New(New { element_type: a, dimensions: [], dimensions: [] })" := by decide

/-! ## Expressions and trees -/

/-- Every expression is read back from its form. -/
theorem Expr.readsBack_inspect (hidden : Char → Bool) (e : Expr) :
    ReadsBack (Expr.inspect hidden) e := by
  induction e using Expr.induct with
  | assign target value htarget hvalue =>
    intro other rest rest' h
    cases other with
    | assign target' value' =>
      rw [inspect, inspect] at h
      obtain ⟨rfl, hright⟩ := htarget _ _ _ (Kind.eq_of_inspect h)
      obtain ⟨rfl, hend⟩ := hvalue _ _ _ (eq_of_moreFields hright)
      exact ⟨rfl, List.append_cancel_left hend⟩
    | _ => cases kind_eq_of_inspect h
  | binary op left right hleft hright =>
    intro other rest rest' h
    cases other with
    | binary op' left' right' =>
      rw [inspect, inspect] at h
      obtain ⟨rfl, hoperands⟩ := areNames_binary.eq_of_field (Kind.eq_of_inspect h)
      obtain ⟨rfl, hsecond⟩ := hleft _ _ _ (eq_of_moreFields hoperands)
      obtain ⟨rfl, hend⟩ := hright _ _ _ (eq_of_moreFields hsecond)
      exact ⟨rfl, List.append_cancel_left hend⟩
    | _ => cases kind_eq_of_inspect h
  | prefixed op operand hoperand =>
    intro other rest rest' h
    cases other with
    | prefixed op' operand' =>
      rw [inspect, inspect] at h
      obtain ⟨rfl, hfield⟩ := areNames_prefixed.eq_of_field (Kind.eq_of_inspect h)
      obtain ⟨rfl, hend⟩ := hoperand _ _ _ (eq_of_moreFields hfield)
      exact ⟨rfl, List.append_cancel_left hend⟩
    | _ => cases kind_eq_of_inspect h
  | suffixed op operand hoperand =>
    intro other rest rest' h
    cases other with
    | suffixed op' operand' =>
      rw [inspect, inspect] at h
      obtain ⟨rfl, hfield⟩ := areNames_suffixed.eq_of_field (Kind.eq_of_inspect h)
      obtain ⟨rfl, hend⟩ := hoperand _ _ _ (eq_of_moreFields hfield)
      exact ⟨rfl, List.append_cancel_left hend⟩
    | _ => cases kind_eq_of_inspect h
  | index base position hbase hposition =>
    intro other rest rest' h
    cases other with
    | index base' position' =>
      rw [inspect, inspect] at h
      obtain ⟨rfl, hfield⟩ := hbase _ _ _ (Kind.eq_of_inspect h)
      obtain ⟨rfl, hend⟩ := hposition _ _ _ (eq_of_moreFields hfield)
      exact ⟨rfl, List.append_cancel_left hend⟩
    | _ => cases kind_eq_of_inspect h
  | call callee arguments hcallee harguments =>
    intro other rest rest' h
    cases other with
    | call callee' arguments' =>
      rw [inspect, inspect, inspectAll_eq_map, inspectAll_eq_map] at h
      obtain ⟨rfl, hfield⟩ := hcallee _ _ _ (Kind.eq_of_inspect h)
      obtain ⟨rfl, hend⟩ := readsBack_listed harguments _ _ _ (eq_of_moreFields hfield)
      exact ⟨rfl, List.append_cancel_left hend⟩
    | _ => cases kind_eq_of_inspect h
  | lambda body parameters hbody hparameters =>
    intro other rest rest' h
    cases other with
    | lambda body' parameters' =>
      rw [inspect, inspect, inspectAll_eq_map, inspectAll_eq_map, List.map_map, List.map_map] at h
      obtain ⟨rfl, hfield⟩ := hbody _ _ _ (Kind.eq_of_inspect h)
      obtain ⟨rfl, hend⟩ := readsBack_statements hparameters _ _ _ (eq_of_moreFields hfield)
      exact ⟨rfl, List.append_cancel_left hend⟩
    | _ => cases kind_eq_of_inspect h
  | access base op member hbase =>
    intro other rest rest' h
    cases other with
    | access base' op' member' =>
      rw [inspect, inspect] at h
      obtain ⟨rfl, hfields⟩ := hbase _ _ _ (Kind.eq_of_inspect h)
      obtain ⟨rfl, hfield⟩ := areNames_access.eq_of_field (eq_of_moreFields hfields)
      obtain ⟨rfl, hend⟩ := areNames_identifier.eq_of_field (eq_of_moreFields hfield)
      exact ⟨rfl, List.append_cancel_left hend⟩
    | _ => cases kind_eq_of_inspect h
  | allocation elementType dimensions hdimensions =>
    intro other rest rest' h
    cases other with
    | allocation elementType' dimensions' =>
      rw [inspect, inspect, inspectAll_eq_map, inspectAll_eq_map] at h
      have hfields := Kind.eq_of_inspect h
      obtain rfl := TypeName.eq_of_field hfields
      obtain ⟨rfl, hend⟩ := readsBack_listed hdimensions _ _ _
        (eq_of_moreFields (List.append_cancel_left hfields))
      exact ⟨rfl, List.append_cancel_left hend⟩
    | _ => cases kind_eq_of_inspect h
  | conditional condition thenBranch elseBranch hcondition hthen helse =>
    intro other rest rest' h
    cases other with
    | conditional condition' thenBranch' elseBranch' =>
      rw [inspect, inspect] at h
      obtain ⟨rfl, hbranches⟩ := hcondition _ _ _ (Kind.eq_of_inspect h)
      obtain ⟨rfl, hbranch⟩ := hthen _ _ _ (eq_of_moreFields hbranches)
      obtain ⟨rfl, hend⟩ := helse _ _ _ (eq_of_moreFields hbranch)
      exact ⟨rfl, List.append_cancel_left hend⟩
    | _ => cases kind_eq_of_inspect h
  | tuple elements helements =>
    intro other rest rest' h
    cases other with
    | tuple elements' =>
      rw [inspect, inspect, inspectAll_eq_map, inspectAll_eq_map] at h
      obtain ⟨rfl, hend⟩ := ((readsBack_listed helements).applied _).applied _ _ _ _ h
      exact ⟨rfl, hend⟩
    | _ => cases kind_eq_of_inspect h
  | ret value hvalue =>
    intro other rest rest' h
    cases other with
    | ret value' =>
      cases value with
      | none =>
        cases value' with
        | none => exact ⟨rfl, List.append_cancel_left h⟩
        | some value' =>
          rw [inspect, inspect] at h
          simp [Kind.inspectSole, applied, String.toList_append] at h
      | some value =>
        cases value' with
        | none =>
          rw [inspect, inspect] at h
          simp [Kind.inspectSole, applied, String.toList_append] at h
        | some value' =>
          rw [inspect, inspect] at h
          obtain ⟨rfl, hend⟩ :=
            (((hvalue value rfl).applied "Some").applied _).applied _ _ _ _ h
          exact ⟨rfl, hend⟩
    | _ => cases kind_eq_of_inspect h
  | block statements hstatements =>
    intro other rest rest' h
    cases other with
    | block statements' =>
      rw [inspect, inspect, inspectAll_eq_map, inspectAll_eq_map, List.map_map, List.map_map] at h
      obtain ⟨rfl, hend⟩ := ((readsBack_statements hstatements).applied _).applied _ _ _ _ h
      exact ⟨rfl, hend⟩
    | _ => cases kind_eq_of_inspect h
  | literal text =>
    intro other rest rest' h
    cases other with
    | literal text' =>
      rw [inspect, inspect] at h
      obtain ⟨rfl, hend⟩ := ((readsBack_quoted hidden text).applied _).applied _ _ _ _ h
      exact ⟨rfl, hend⟩
    | _ => cases kind_eq_of_inspect h

/-- The name at the beginning of a tree's form, with the character behind it. -/
def Tree.heading : Tree → String × Char
  | unit _ => (Kind.unit.label, ' ')
  | statement _ => ("Expression", '(')
  | expression e => (e.kind.label, '(')

theorem Tree.toList_inspect (hidden : Char → Bool) (tree : Tree) :
    ∃ cs, (tree.inspect hidden).toList = tree.heading.1.toList ++ tree.heading.2 :: cs := by
  cases tree with
  | unit u => exact ⟨_, by simp [inspect, heading, record, String.toList_append]; rfl⟩
  | statement e =>
    exact ⟨_, by simp [inspect, heading, inspectStatement, applied, String.toList_append]; rfl⟩
  | expression e => exact e.toList_inspect hidden

theorem Tree.heading_eq_of_inspect {hidden : Char → Bool} {tree tree' : Tree}
    (h : tree.inspect hidden = tree'.inspect hidden) : tree.heading = tree'.heading := by
  have hname (tree : Tree) : ∀ c ∈ tree.heading.1.toList, isNameChar c = true := by
    cases tree with
    | unit u => exact areNames_kind.wellSpelled .unit
    | statement e =>
      have hlabel : "Expression".toList.all isNameChar = true := by decide
      exact List.all_eq_true.mp hlabel
    | expression e => exact areNames_kind.wellSpelled e.kind
  have hmark (tree : Tree) : isNameChar tree.heading.2 = false := by cases tree <;> rfl
  obtain ⟨cs, hcs⟩ := tree.toList_inspect hidden
  obtain ⟨ds, hds⟩ := tree'.toList_inspect hidden
  rw [← h, hcs] at hds
  have hsplit := eq_of_run (hname tree) (hname tree') (hmark tree) (hmark tree') hds
  exact Prod.ext (String.toList_injective hsplit.1) hsplit.2.1

theorem CompilationUnit.eq_of_inspect {hidden : Char → Bool} {unit unit' : CompilationUnit}
    (h : (Tree.unit unit).inspect hidden = (Tree.unit unit').inspect hidden) : unit = unit' := by
  obtain ⟨statements⟩ := unit
  obtain ⟨statements'⟩ := unit'
  have hlists := congrArg String.toList h
  simp only [Tree.inspect, record, List.map_cons, List.map_nil, String.intercalate_singleton,
    String.toList_append, List.append_assoc, List.append_cancel_left_eq] at hlists
  have hread := Expr.readsBack_statements fun e (_ : e ∈ statements) => e.readsBack_inspect hidden
  rw [(hread _ _ _ hlists).1]

/-- Equal forms are those of equal trees, and the form also shows what kind of tree it is of. -/
theorem Tree.eq_of_inspect {hidden : Char → Bool} {tree tree' : Tree}
    (h : tree.inspect hidden = tree'.inspect hidden) : tree = tree' := by
  have hheading := heading_eq_of_inspect h
  have hkind (e : Expr) : ("Expression", '(') ≠ (e.kind.label, '(') := by
    cases e.kind <;> decide
  cases tree with
  | unit u =>
    cases tree' with
    | unit u' => exact congrArg Tree.unit (CompilationUnit.eq_of_inspect h)
    | statement e' => simp [heading] at hheading
    | expression e' => simp [heading] at hheading
  | statement e =>
    cases tree' with
    | unit u' => simp [heading] at hheading
    | statement e' =>
      exact congrArg Tree.statement (((e.readsBack_inspect hidden).applied _).eq_of_form_eq h)
    | expression e' => exact absurd hheading (hkind e')
  | expression e =>
    cases tree' with
    | unit u' => simp [heading] at hheading
    | statement e' => exact absurd hheading.symm (hkind e)
    | expression e' => exact congrArg Tree.expression ((e.readsBack_inspect hidden).eq_of_form_eq h)

/-- Comparison and inspection tell the same trees apart, whichever characters inspection hides: for
expressions, and for all trees. -/
theorem same_iff_inspect_eq (hidden : Char → Bool) :
    (∀ e e' : Expr, e.same e' = true ↔ e.inspect hidden = e'.inspect hidden) ∧
      ∀ tree tree' : Tree, (tree == tree') = true ↔ tree.inspect hidden = tree'.inspect hidden := by
  refine ⟨fun e e' => ?_, fun tree tree' => ?_⟩
  · rw [Expr.same_iff]
    exact ⟨fun h => by rw [h], (e.readsBack_inspect hidden).eq_of_form_eq⟩
  · rw [beq_iff_eq]
    exact ⟨fun h => by rw [h], Tree.eq_of_inspect⟩

end CppTree
