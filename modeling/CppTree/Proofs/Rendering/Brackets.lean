import CppTree.Proofs.Layout.Built
import CppTree.Proofs.Names
import CppTree.Proofs.Rendering.Handlers

/-!
# Brackets of renderings

A rendering closes every bracket that it opens, if the capture list and the literals do.  A scan
keeps the closing brackets that are due; every part of a rendering leaves them as they were.  Main
statement: `Tree.balanced_render`.
-/

namespace CppTree

/-! ## Scanning for brackets -/

/-- The bracket that closes an opening round, square or curly bracket. -/
def closing? (c : Char) : Option Char :=
  if c = '(' then some ')' else if c = '[' then some ']' else if c = '{' then some '}' else none

/-- The closing brackets that are due behind a character, innermost first.  A closing bracket has to
be the one that is due first. -/
def dueAfter (due : List Char) (c : Char) : Option (List Char) :=
  match closing? c with
  | some closer => some (closer :: due)
  | none =>
    if c = ')' ∨ c = ']' ∨ c = '}' then
      match due with
      | closer :: outer => if c = closer then some outer else none
      | [] => none
    else some due

/-- The closing brackets that are due behind some characters, if all of theirs match. -/
def dueAfterAll (due : List Char) (cs : List Char) : Option (List Char) :=
  cs.foldlM dueAfter due

/-- Whether every bracket of a text is matched. -/
def Balanced (text : String) : Prop :=
  dueAfterAll [] text.toList = some []

instance (text : String) : Decidable (Balanced text) :=
  inferInstanceAs (Decidable (dueAfterAll [] text.toList = some []))

@[simp]
theorem dueAfterAll_nil (due : List Char) : dueAfterAll due [] = some due := rfl

@[simp]
theorem dueAfterAll_cons (due : List Char) (c : Char) (cs : List Char) :
    dueAfterAll due (c :: cs) = (dueAfter due c).bind fun after => dueAfterAll after cs := rfl

@[simp]
theorem dueAfterAll_append (due cs ds : List Char) :
    dueAfterAll due (cs ++ ds) = (dueAfterAll due cs).bind fun after => dueAfterAll after ds :=
  List.foldlM_append

/-- What a character does to the brackets that are due does not depend on those further out. -/
theorem dueAfter_append {due after : List Char} {c : Char} (h : dueAfter due c = some after)
    (outer : List Char) : dueAfter (due ++ outer) c = some (after ++ outer) := by
  unfold dueAfter at h ⊢
  cases hclosing : closing? c with
  | some closer =>
    rw [hclosing] at h
    cases h
    rfl
  | none =>
    rw [hclosing] at h
    simp only at h ⊢
    split at h
    · rw [if_pos ‹_›]
      cases due with
      | nil => cases h
      | cons closer due =>
        simp only [List.cons_append] at h ⊢
        split at h
        · rw [if_pos ‹_›]
          cases h
          rfl
        · cases h
    · rw [if_neg ‹_›]
      cases h
      rfl

theorem dueAfterAll_outer {due after cs : List Char} (h : dueAfterAll due cs = some after)
    (outer : List Char) : dueAfterAll (due ++ outer) cs = some (after ++ outer) := by
  induction cs generalizing due with
  | nil =>
    cases h
    rfl
  | cons c cs ih =>
    rw [dueAfterAll_cons] at h ⊢
    obtain ⟨next, hnext, hrest⟩ := Option.bind_eq_some_iff.mp h
    rw [dueAfter_append hnext outer, Option.bind_some]
    exact ih hrest

/-- A balanced text leaves the brackets that are due as they were. -/
theorem Balanced.dueAfterAll_eq {text : String} (h : Balanced text) (due : List Char) :
    dueAfterAll due text.toList = some due := by
  simpa using dueAfterAll_outer h due

theorem dueAfter_of_plain {c : Char} (h : c ∉ ['(', ')', '[', ']', '{', '}']) (due : List Char) :
    dueAfter due c = some due := by
  simp only [List.mem_cons, not_or] at h
  simp [dueAfter, closing?, h]

theorem dueAfterAll_of_plain {cs : List Char} (h : ∀ c ∈ cs, c ∉ ['(', ')', '[', ']', '{', '}'])
    (due : List Char) : dueAfterAll due cs = some due := by
  induction cs with
  | nil => rfl
  | cons c cs ih =>
    rw [dueAfterAll_cons, dueAfter_of_plain (h c (by simp))]
    exact ih fun d hd => h d (List.mem_cons_of_mem c hd)

/-! ## Names -/

theorem Identifier.balanced (name : Identifier) : Balanced name.text := by
  refine dueAfterAll_of_plain (fun c hc hbracket => ?_) []
  have hno : ['(', ')', '[', ']', '{', '}'].any isNameChar = false := by decide
  exact List.any_eq_false.mp hno c hbracket (isNameChar_of_isIdentifier name.wellSpelled hc)

/-- Among the brackets of a type name, the square ones match when the angle ones are left out. -/
theorem dueAfterAll_of_bracketsNest {pending cs : List Char}
    (hchars : ∀ c ∈ cs, isTypeChar c = true) (hnest : bracketsNest pending cs = true) :
    dueAfterAll (pending.filter (· = ']')) cs = some [] := by
  induction cs generalizing pending with
  | nil =>
    rw [bracketsNest, List.isEmpty_iff] at hnest
    rw [hnest]
    rfl
  | cons c cs ih =>
    have hrest := fun pending => @ih pending fun d hd => hchars d (List.mem_cons_of_mem c hd)
    rw [dueAfterAll_cons]
    by_cases hangle : c = '<'
    · subst hangle
      exact hrest ('>' :: pending) (by simpa [bracketsNest, closerOf?] using hnest)
    by_cases hsquare : c = '['
    · subst hsquare
      exact hrest (']' :: pending) (by simpa [bracketsNest, closerOf?] using hnest)
    by_cases hcloser : c = '>' ∨ c = ']'
    · cases pending with
      | nil => simp [bracketsNest, closerOf?, hangle, hsquare, hcloser] at hnest
      | cons closer pending =>
        have hmatch : c = closer ∧ bracketsNest pending cs = true := by
          simpa [bracketsNest, closerOf?, hangle, hsquare, hcloser] using hnest
        obtain ⟨rfl, hnest⟩ := hmatch
        rcases hcloser with rfl | rfl
        · exact hrest pending hnest
        · exact hrest pending hnest
    · have hplain : c ∉ ['(', ')', '[', ']', '{', '}'] := fun hbracket => by
        have hno : ['(', ')', '{', '}'].any isTypeChar = false := by decide
        have hround : c ∉ ['(', ')', '{', '}'] := fun hmem =>
          List.any_eq_false.mp hno c hmem (hchars c (by simp))
        grind
      rw [dueAfter_of_plain hplain]
      exact hrest pending (by simpa [bracketsNest, closerOf?, hangle, hsquare, hcloser] using hnest)

theorem TypeName.balanced (name : TypeName) : Balanced name.text := by
  have hspelled := name.wellSpelled
  have hchars : ∀ c ∈ name.text.toList, isTypeChar c = true :=
    fun c => isTypeChar_of_isTypeName hspelled
  have hnest : bracketsNest [] name.text.toList = true := by
    cases hcs : name.text.toList with
    | nil => rfl
    | cons c cs =>
      rw [hcs, isTypeName, Bool.and_eq_true] at hspelled
      exact hspelled.2
  exact dueAfterAll_of_bracketsNest hchars hnest

theorem spelled_balanced : Doc.Spelled Balanced where
  fixed := by decide
  binary op := by cases op <;> decide
  prefixed op := by cases op <;> decide
  suffixed op := by cases op <;> decide
  access op := by cases op <;> decide
  member := Identifier.balanced
  elementType := TypeName.balanced

/-! ## Documents and trees -/

theorem dueAfterAll_line (width depth : Nat) (due : List Char) :
    dueAfterAll due (Doc.line.print width depth).toList = some due := by
  rw [Doc.toList_print_line]
  exact dueAfterAll_of_plain (by simp +contextual [List.mem_replicate]) due

theorem dueAfterAll_enclosed (opener closer : Char)
    (hopener : ∀ due, dueAfter due opener = some (closer :: due))
    (hcloser : ∀ due, dueAfter (closer :: due) closer = some due) {cs : List Char}
    (h : ∀ due, dueAfterAll due cs = some due) (due : List Char) :
    dueAfterAll due ([opener] ++ cs ++ [closer]) = some due := by
  rw [dueAfterAll_append, dueAfterAll_append, dueAfterAll_cons, hopener, Option.bind_some,
    dueAfterAll_nil, Option.bind_some, h, Option.bind_some, dueAfterAll_cons, hcloser,
    Option.bind_some, dueAfterAll_nil]

/-- The text of a document that is built from balanced texts is passed over, wherever it stands. -/
theorem Doc.Built.dueAfterAll_print {doc : Doc} (h : doc.Built Balanced) (width depth : Nat)
    (due : List Char) : dueAfterAll due (doc.print width depth).toList = some due := by
  induction h generalizing depth due with
  | nil => rfl
  | text htext => exact htext.dueAfterAll_eq due
  | line => exact dueAfterAll_line width depth due
  | append _ _ hbefore hafter =>
    rw [Doc.print_append, String.toList_append, dueAfterAll_append, hbefore, Option.bind_some,
      hafter]
  | nest _ ih =>
    rw [Doc.print_append, Doc.print_nest, String.toList_append, dueAfterAll_append, ih,
      Option.bind_some]
    exact dueAfterAll_line width depth due
  | parenthesized _ ih =>
    rw [Doc.toList_print_parenthesized]
    exact dueAfterAll_enclosed '(' ')' (fun _ => rfl) (fun _ => rfl) (ih depth) due
  | bracketed _ ih =>
    rw [Doc.toList_print_bracketed]
    exact dueAfterAll_enclosed '[' ']' (fun _ => rfl) (fun _ => rfl) (ih depth) due
  | braced _ ih =>
    rw [Doc.toList_print_braced]
    exact dueAfterAll_enclosed '{' '}' (fun _ => rfl) (fun _ => rfl) (ih depth) due

/-- Every rendering is balanced when the capture list and all literals are.  Member names and
element types never break it. -/
theorem Tree.balanced_render (renderer : Renderer) (tree : Tree)
    (hcapture : Balanced renderer.style.lambdaCapture)
    (htexts : ∀ text, Expr.literal text ∈ tree.nodes → Balanced text) :
    Balanced (renderer.render tree).1 := by
  have hbuilt :=
    tree.built spelled_balanced (by decide) hcapture fun x hx text htext => htexts text (htext ▸ hx)
  rw [Renderer.render_eq]
  exact hbuilt.dueAfterAll_print _ _ []

def pairTable : Tree :=
  .statement <| .lambda
    (.block [.allocation ⟨"std::pair<int[2], char>", by decide⟩ [.literal "at(i)[0]"]])
    [.literal "{x, (y)}"]

/-- Brackets in the capture list, in literals and in an element type, inside other brackets. -/
theorem balanced_render_pairTable :
    Balanced "&, n = f(x)" ∧ (∀ text, Expr.literal text ∈ pairTable.nodes → Balanced text) ∧
      pairTable.text ⟨2, "&, n = f(x)"⟩ =
        "\n".intercalate ["[&, n = f(x)]({x, (y)}) " ++ String.singleton '{',
          "  new std::pair<int[2], char>[at(i)[0]];", String.singleton '}'] ∧
      Balanced (pairTable.text ⟨2, "&, n = f(x)"⟩) := by
  have htexts : ∀ text, Expr.literal text ∈ pairTable.nodes → Balanced text := by
    intro text htext
    have hliterals : text = "at(i)[0]" ∨ text = "{x, (y)}" := by
      simpa [pairTable, Tree.nodes, Tree.tops, Expr.nodes] using htext
    rcases hliterals with rfl | rfl <;> decide
  have hcapture : Balanced "&, n = f(x)" := by decide
  exact ⟨hcapture, htexts, by decide,
    Tree.balanced_render ⟨⟨2, "&, n = f(x)"⟩, 0⟩ _ hcapture htexts⟩

end CppTree
