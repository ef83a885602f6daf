import CppTree.Proofs.Inspect.Reading
import CppTree.Proofs.Names
import CppTree.Proofs.Rendering.Handlers
import Mathlib.Data.List.Induction

/-!
# Reading allocations back

How far the text of an allocation shows where its element type ends and its dimensions begin.  The
layout sets dimensions in the same square brackets in which an element type may end, so the text
`new int[4][3]` belongs to two allocations: dimensions move between the two places without a trace.
Nothing else is lost (`allocationText_eq_iff`), and nothing at all where element types end in no
square bracket (`eq_of_allocationText_eq`).
-/

namespace CppTree

/-! ## Sizes in brackets -/

/-- Sizes in square brackets, one behind the other. -/
def bracketedSizes (sizes : List String) : String :=
  String.join (sizes.map fun size => "[" ++ size ++ "]")

/-- Whether a text is a non-empty run of ASCII letters, digits and underscores. -/
def isWord (text : String) : Bool :=
  text != "" && text.toList.all isNameChar

theorem bracketedSizes_append (sizes more : List String) :
    bracketedSizes (sizes ++ more) = bracketedSizes sizes ++ bracketedSizes more := by
  rw [bracketedSizes, List.map_append, String.join_append, bracketedSizes, bracketedSizes]

/-- The last size behind a text is told from what stands in front of it. -/
theorem eq_of_bracketed {front front' size size' : String} (hsize : isWord size = true)
    (hsize' : isWord size' = true)
    (h : front ++ bracketedSizes [size] = front' ++ bracketedSizes [size']) :
    front = front' ∧ size = size' := by
  have hchars {text : String} (htext : isWord text = true) :
      ∀ c ∈ text.toList.reverse, isNameChar c = true := by
    rw [isWord, Bool.and_eq_true, List.all_eq_true] at htext
    exact fun c hc => htext.2 c (List.mem_reverse.mp hc)
  -- Read from the end, a size is the run of characters up to its opening bracket.
  have hreverse : size.toList.reverse ++ '[' :: front.toList.reverse =
      size'.toList.reverse ++ '[' :: front'.toList.reverse := by
    simpa [bracketedSizes, String.toList_append] using congrArg (fun s => s.toList.reverse) h
  obtain ⟨hrun, -, hrest⟩ := Inspect.eq_of_run (hchars hsize) (hchars hsize') (by decide)
    (by decide) hreverse
  exact ⟨String.toList_injective (List.reverse_inj.mp hrest),
    String.toList_injective (List.reverse_inj.mp hrun)⟩

/-- Of two texts with sizes behind them one may end in sizes itself, which the other has as its
first. -/
theorem exists_lead {front front' : String} {sizes sizes' : List String}
    (hsizes : ∀ size ∈ sizes, isWord size = true) (hsizes' : ∀ size ∈ sizes', isWord size = true)
    (h : front ++ bracketedSizes sizes = front' ++ bracketedSizes sizes') :
    ∃ lead, front = front' ++ bracketedSizes lead ∧ sizes' = lead ++ sizes ∨
      front' = front ++ bracketedSizes lead ∧ sizes = lead ++ sizes' := by
  induction sizes using List.reverseRecOn generalizing sizes' with
  | nil => exact ⟨sizes', .inl ⟨by simpa [bracketedSizes] using h, by simp⟩⟩
  | append_singleton sizes size ih =>
    cases sizes' using List.reverseRecOn with
    | nil => exact ⟨sizes ++ [size], .inr ⟨by simpa [bracketedSizes] using h.symm, by simp⟩⟩
    | append_singleton others other =>
      rw [bracketedSizes_append, bracketedSizes_append, ← String.append_assoc,
        ← String.append_assoc] at h
      obtain ⟨hfront, rfl⟩ := eq_of_bracketed (hsizes size (by simp)) (hsizes' other (by simp)) h
      obtain ⟨lead, hlead⟩ := ih (fun s hs => hsizes s (by simp [hs]))
        (fun s hs => hsizes' s (by simp [hs])) hfront
      refine ⟨lead, hlead.imp ?_ ?_⟩ <;>
        · rintro ⟨htext, rfl⟩
          exact ⟨htext, List.append_assoc ..⟩

theorem getLast?_bracketedSizes (front : String) {sizes : List String} (h : sizes ≠ []) :
    (front ++ bracketedSizes sizes).toList.getLast? = some ']' := by
  have hlast (size : String) : (bracketedSizes [size]).toList = ('[' :: size.toList) ++ [']'] := by
    simp [bracketedSizes, String.toList_append]
  rw [← List.dropLast_concat_getLast h, bracketedSizes_append, ← String.append_assoc,
    String.toList_append, hlast, ← List.append_assoc, List.getLast?_concat]

/-! ## Allocations -/

/-- The text of an allocation whose dimensions are single words. -/
def allocationText (renderer : Renderer) (elementType : TypeName) (sizes : List String) : String :=
  (renderer.render (.expression (.allocation elementType (sizes.map .literal)))).1

theorem print_sizes (capture : String) (width depth : Nat) (sizes : List String) :
    Doc.print width depth ((Expr.docs capture (sizes.map .literal)).foldr
      (fun size rest => size.bracketed ++ rest) .nil) = bracketedSizes sizes := by
  induction sizes with
  | nil => rfl
  | cons size sizes ih =>
    rw [List.map_cons, Expr.docs, List.foldr_cons, Doc.print_append, ih, Expr.doc,
      bracketedSizes, bracketedSizes, List.map_cons, String.join_cons]
    rfl

theorem allocationText_eq (renderer : Renderer) (elementType : TypeName) (sizes : List String) :
    allocationText renderer elementType sizes =
      "new " ++ elementType.text ++ if sizes.isEmpty then "()" else bracketedSizes sizes := by
  rw [allocationText, Renderer.render_eq, Tree.doc, Expr.doc, List.isEmpty_map]
  cases sizes with
  | nil => rfl
  | cons size sizes =>
    rw [List.isEmpty_cons, if_neg Bool.false_ne_true, if_neg Bool.false_ne_true,
      Doc.print_append, print_sizes]
    rfl

/-- Whether an element type ends in dimensions that another allocation, the same otherwise, has in
front of its own.  An allocation of a single object has none to have them in front of. -/
def Regroups (elementType : TypeName) (sizes : List String) (elementType' : TypeName)
    (sizes' : List String) : Prop :=
  ∃ lead, elementType.text = elementType'.text ++ bracketedSizes lead ∧ sizes' = lead ++ sizes ∧
    (sizes = [] → lead = [])

theorem Regroups.allocationText_eq {renderer : Renderer} {elementType elementType' : TypeName}
    {sizes sizes' : List String} (h : Regroups elementType sizes elementType' sizes') :
    allocationText renderer elementType sizes = allocationText renderer elementType' sizes' := by
  obtain ⟨lead, htext, rfl, hlead⟩ := h
  rw [CppTree.allocationText_eq, CppTree.allocationText_eq, htext]
  cases sizes with
  | nil => simp [hlead rfl, bracketedSizes]
  | cons size sizes => simp [bracketedSizes_append, String.append_assoc]

section
variable {renderer : Renderer} {elementType elementType' : TypeName} {sizes sizes' : List String}

theorem regroups_of_allocationText_eq (hsizes : ∀ size ∈ sizes, isWord size = true)
    (hsizes' : ∀ size ∈ sizes', isWord size = true)
    (h : allocationText renderer elementType sizes = allocationText renderer elementType' sizes') :
    Regroups elementType sizes elementType' sizes' ∨
      Regroups elementType' sizes' elementType sizes := by
  -- An allocation of a single object ends in a round bracket, every other one in a square bracket.
  have hround (front front' : String) {sizes : List String} (hnil : sizes ≠ []) :
      front ++ "()" ≠ front' ++ bracketedSizes sizes := by
    intro heq
    have hlast := getLast?_bracketedSizes front' hnil
    rw [← heq] at hlast
    simp [String.toList_append] at hlast
  rw [allocationText_eq, allocationText_eq, String.append_assoc, String.append_assoc,
    String.append_right_inj] at h
  by_cases hnil : sizes = [] <;> by_cases hnil' : sizes' = []
  · subst hnil hnil'
    exact .inl ⟨[], by simpa [bracketedSizes] using h, rfl, fun _ => rfl⟩
  · rw [if_pos (by simpa using hnil), if_neg (by simpa using hnil')] at h
    exact absurd h (hround _ _ hnil')
  · rw [if_neg (by simpa using hnil), if_pos (by simpa using hnil')] at h
    exact absurd h.symm (hround _ _ hnil)
  · rw [if_neg (by simpa using hnil), if_neg (by simpa using hnil')] at h
    obtain ⟨lead, hlead⟩ := exists_lead hsizes hsizes' h
    refine hlead.imp ?_ ?_ <;> rintro ⟨htext, hsplit⟩
    · exact ⟨lead, htext, hsplit, fun h => absurd h hnil⟩
    · exact ⟨lead, htext, hsplit, fun h => absurd h hnil'⟩

/-- Element types that end in no square bracket are read back, and the dimensions with them. -/
theorem eq_of_allocationText_eq (htype : elementType.text.toList.getLast? ≠ some ']')
    (htype' : elementType'.text.toList.getLast? ≠ some ']')
    (hsizes : ∀ size ∈ sizes, isWord size = true)
    (hsizes' : ∀ size ∈ sizes', isWord size = true)
    (h : allocationText renderer elementType sizes = allocationText renderer elementType' sizes') :
    elementType = elementType' ∧ sizes = sizes' := by
  have hregroups {a b : TypeName} {ss ts : List String} (ha : a.text.toList.getLast? ≠ some ']')
      (h : Regroups a ss b ts) : a = b ∧ ss = ts := by
    obtain ⟨lead, htext, rfl, -⟩ := h
    cases lead with
    | nil =>
      cases a
      cases b
      simpa [bracketedSizes] using htext
    | cons size lead =>
      rw [htext] at ha
      exact absurd (getLast?_bracketedSizes b.text (List.cons_ne_nil size lead)) ha
  rcases regroups_of_allocationText_eq hsizes hsizes' h with h | h
  · exact hregroups htype h
  · exact (hregroups htype' h).imp Eq.symm Eq.symm

end

/-- Two allocations have the same text exactly if they are the same up to leading dimensions that
belong to the element type in one and to the allocation in the other. -/
theorem allocationText_eq_iff (renderer : Renderer) {elementType elementType' : TypeName}
    {sizes sizes' : List String} (hsizes : ∀ size ∈ sizes, isWord size = true)
    (hsizes' : ∀ size ∈ sizes', isWord size = true) :
    allocationText renderer elementType sizes = allocationText renderer elementType' sizes' ↔
      Regroups elementType sizes elementType' sizes' ∨
        Regroups elementType' sizes' elementType sizes := by
  constructor
  · exact regroups_of_allocationText_eq hsizes hsizes'
  · rintro (h | h)
    · exact h.allocationText_eq
    · exact h.allocationText_eq.symm

/-- The text `new int[2][4][3]`, with its first two dimensions in the element type or not. -/
theorem allocationText_eq_iff_rows :
    (∀ size ∈ ["3"], isWord size = true) ∧ (∀ size ∈ ["2", "4", "3"], isWord size = true) ∧
      allocationText {} ⟨"int[2][4]", by decide⟩ ["3"] =
        allocationText {} ⟨"int", by decide⟩ ["2", "4", "3"] := by
  have hsizes : ∀ size ∈ ["3"], isWord size = true := by decide
  have hsizes' : ∀ size ∈ ["2", "4", "3"], isWord size = true := by decide
  refine ⟨hsizes, hsizes', (allocationText_eq_iff {} hsizes hsizes').mpr (.inl ?_)⟩
  exact ⟨["2", "4"], by decide, rfl, by decide⟩

/-- Three times `int[4]` and four times `int[3]` have the text `new int[4][3]`, so element types and
dimensions are not determined by the text. -/
theorem not_allocationText_injective :
    ¬ ∀ (elementType elementType' : TypeName) (sizes sizes' : List String),
      (∀ size ∈ sizes, isWord size = true) → (∀ size ∈ sizes', isWord size = true) →
        allocationText {} elementType sizes = allocationText {} elementType' sizes' →
          elementType = elementType' ∧ sizes = sizes' := by
  intro h
  have heq := h ⟨"int[4]", by decide⟩ ⟨"int", by decide⟩ ["3"] ["4", "3"] (by decide) (by decide)
    (by decide)
  exact absurd heq.2 (by decide)

end CppTree
