import CppTree.Proofs.Layout.Counts
import CppTree.Proofs.Layout.Independence
import CppTree.Proofs.Rendering.Sequence
import Mathlib.Algebra.Group.Prod

/-!
# Statements on their lines

A rendering ends every statement once and starts a line for it.  Its semicolons and line breaks can
be counted on the tree, and it breaks lines only behind a bracket of a block or a semicolon.  Both
hold of all that the layout puts together, from the texts of literals up to units.  Main statement:
`CompilationUnit.statements_terminated`.
-/

namespace CppTree

/-! ## Marks at the ends of lines -/

/-- The characters in which lines may end. -/
def lineMarks : List Char := ['{', '}', ';']

def EndsMarked (cs : List Char) : Prop :=
  ∃ c ∈ lineMarks, cs.getLast? = some c

/-- Whether all line breaks stand behind marks. -/
def BreaksMarked (cs : List Char) : Prop :=
  ∀ before after, cs = before ++ '\n' :: after → EndsMarked before

theorem endsMarked_concat {c : Char} (h : c ∈ lineMarks) (cs : List Char) :
    EndsMarked (cs ++ [c]) :=
  ⟨c, h, List.getLast?_concat⟩

theorem EndsMarked.ne_nil {cs : List Char} (h : EndsMarked cs) : cs ≠ [] := by
  rintro rfl
  obtain ⟨c, -, hlast⟩ := h
  cases hlast

theorem EndsMarked.append {ds : List Char} (h : EndsMarked ds) (cs : List Char) :
    EndsMarked (cs ++ ds) := by
  obtain ⟨c, hc, hlast⟩ := h
  exact ⟨c, hc, by rw [List.getLast?_append, hlast, Option.some_or]⟩

/-- A mark is not a line break, so behind a line break something has to follow. -/
theorem EndsMarked.of_newline {cs ds : List Char} (h : EndsMarked (cs ++ '\n' :: ds)) :
    EndsMarked ds := by
  obtain ⟨c, hc, hlast⟩ := h
  refine ⟨c, hc, ?_⟩
  rw [List.getLast?_append_cons] at hlast
  cases ds with
  | nil =>
    cases hlast
    exact absurd hc (by decide)
  | cons d ds => rwa [List.getLast?_cons_cons] at hlast

theorem BreaksMarked.of_unbroken {cs : List Char} (h : '\n' ∉ cs) : BreaksMarked cs := by
  rintro before after rfl
  exact absurd (by simp) h

theorem BreaksMarked.append {cs ds : List Char} (hcs : BreaksMarked cs) (hds : BreaksMarked ds) :
    BreaksMarked (cs ++ ds) := by
  intro before after h
  rcases List.append_eq_append_iff.mp h with ⟨rest, rfl, hrest⟩ | ⟨rest, rfl, hrest⟩
  · exact (hds rest after hrest).append cs
  · -- The break is the first character of the second text, or it is in the first text.
    cases rest with
    | nil => exact absurd rfl (hds [] after hrest.symm).ne_nil
    | cons c rest =>
      obtain ⟨rfl, -⟩ := List.cons.inj hrest
      exact hcs before rest rfl

theorem BreaksMarked.append_newline {cs ds : List Char} (hcs : BreaksMarked cs)
    (hend : EndsMarked cs) (hds : BreaksMarked ds) : BreaksMarked (cs ++ '\n' :: ds) := by
  intro before after h
  rcases List.append_eq_append_iff.mp h with ⟨rest, rfl, hrest⟩ | ⟨rest, rfl, hrest⟩
  · cases rest with
    | nil => simpa using hend
    | cons c rest =>
      obtain ⟨rfl, htail⟩ := List.cons.inj hrest
      exact ((hds rest after htail).append ['\n']).append cs
  · cases rest with
    | nil => simpa using hend
    | cons c rest =>
      obtain ⟨rfl, -⟩ := List.cons.inj hrest
      exact hcs before rest rfl

theorem BreaksMarked.of_append_newline {cs ds : List Char} (h : BreaksMarked (cs ++ '\n' :: ds)) :
    BreaksMarked ds := by
  rintro before after rfl
  exact (h (cs ++ '\n' :: before) after (by simp)).of_newline

/-- A text that breaks lines only behind marks, and ends in one, falls into lines that do. -/
theorem BreaksMarked.exists_lines {cs : List Char} (h : BreaksMarked cs) (hend : EndsMarked cs) :
    ∃ lines : List String, String.ofList cs ++ "\n" = String.join (lines.map (· ++ "\n")) ∧
      ∀ line ∈ lines, Unbroken line ∧ EndsMarked line.toList := by
  by_cases hbreak : '\n' ∈ cs
  · obtain ⟨first, rest, rfl, hfirst⟩ := List.eq_append_cons_of_mem hbreak
    obtain ⟨lines, hlines, hmarked⟩ := h.of_append_newline.exists_lines hend.of_newline
    refine ⟨String.ofList first :: lines, ?_, List.forall_mem_cons.mpr ⟨?_, hmarked⟩⟩
    · rw [List.map_cons, String.join_cons, ← hlines]
      apply String.toList_injective
      simp [String.toList_append]
    · simpa [Unbroken, hfirst] using h first rest rfl
  · refine ⟨[String.ofList cs], by simp, fun line hline => ?_⟩
    obtain rfl := List.mem_singleton.mp hline
    simpa [Unbroken, hbreak] using hend
termination_by cs.length

/-! ## Semicolons and line breaks -/

/-- Whether a text has neither semicolons nor line breaks. -/
def Unpunctuated (text : String) : Prop :=
  ';' ∉ text.toList ∧ Unbroken text

instance (text : String) : Decidable (Unpunctuated text) :=
  inferInstanceAs (Decidable (';' ∉ text.toList ∧ Unbroken text))

theorem connecting_unpunctuated : Doc.Connecting Unpunctuated where
  fixed := by decide
  binary op := by cases op <;> decide
  prefixed op := by cases op <;> decide
  suffixed op := by cases op <;> decide
  access op := by cases op <;> decide

theorem Identifier.unpunctuated (name : Identifier) : Unpunctuated name.text :=
  ⟨fun h => absurd (isNameChar_of_isIdentifier name.wellSpelled h) (by decide),
    spelled_unbroken.member name⟩

theorem TypeName.unpunctuated (name : TypeName) : Unpunctuated name.text :=
  ⟨fun h => absurd (isTypeChar_of_isTypeName name.wellSpelled h) (by decide),
    spelled_unbroken.elementType name⟩

/-- Whether a text has so many semicolons and so many line breaks, all of these behind marks. -/
structure Punctuated (cs : List Char) (counts : Nat × Nat) : Prop where
  semicolons : cs.count ';' = counts.1
  breaks : cs.count '\n' = counts.2
  marked : BreaksMarked cs

namespace Punctuated

variable {cs ds : List Char} {m n : Nat × Nat}

theorem congr (h : Punctuated cs m) (hmn : m = n) : Punctuated cs n :=
  hmn ▸ h

theorem of_not_mem (hsemicolon : ';' ∉ cs) (hbreak : '\n' ∉ cs) : Punctuated cs 0 :=
  ⟨List.count_eq_zero_of_not_mem hsemicolon, List.count_eq_zero_of_not_mem hbreak,
    .of_unbroken hbreak⟩

theorem append (hcs : Punctuated cs m) (hds : Punctuated ds n) : Punctuated (cs ++ ds) (m + n) where
  semicolons := by rw [List.count_append, hcs.semicolons, hds.semicolons, Prod.fst_add]
  breaks := by rw [List.count_append, hcs.breaks, hds.breaks, Prod.snd_add]
  marked := hcs.marked.append hds.marked

theorem enclosed (h : Punctuated cs m) {opener closer : Char} (hopener : opener ∉ [';', '\n'])
    (hcloser : closer ∉ [';', '\n']) : Punctuated ([opener] ++ cs ++ [closer]) m := by
  have hplain {c : Char} (hc : c ∉ [';', '\n']) : Punctuated [c] 0 := by
    rw [List.mem_cons, List.mem_singleton, not_or] at hc
    exact .of_not_mem (by simpa using Ne.symm hc.1) (by simpa using Ne.symm hc.2)
  exact (((hplain hopener).append h).append (hplain hcloser)).congr (by rw [zero_add, add_zero])

theorem append_newline (hcs : Punctuated cs m) (hend : EndsMarked cs) (hds : Punctuated ds n) :
    Punctuated (cs ++ '\n' :: ds) (m + n + (0, 1)) where
  semicolons := by
    rw [List.count_append, List.count_cons_of_ne (by decide), hcs.semicolons, hds.semicolons]
    rfl
  breaks := by
    rw [List.count_append, List.count_cons_self, hcs.breaks, hds.breaks]
    rfl
  marked := hcs.marked.append_newline hend hds.marked

end Punctuated

/-! ## Statements and blocks -/

/-- Counts semicolons and line breaks. -/
def punctuation : Weights (Nat × Nat) where
  edge _ := 0
  semicolon := (1, 0)
  block statements := (statements.countP (·.kind ≠ .block), statements.length + 1)

/-- What is counted in a statement with what ends it and with the start or the end of its line. -/
def Expr.lineCount (e : Expr) : Nat × Nat :=
  punctuation.total e + (if e.kind ≠ .block then 1 else 0, 0) + (0, 1)

theorem sum_lineCount (statements : List Expr) :
    (statements.map Expr.lineCount).sum =
      (statements.map punctuation.total).sum +
        (statements.countP (·.kind ≠ .block), statements.length) := by
  induction statements with
  | nil => rfl
  | cons e es ih =>
    rw [List.map_cons, List.sum_cons, ih, List.map_cons, List.sum_cons, List.countP_cons,
      List.length_cons, Expr.lineCount]
    refine Prod.ext ?_ ?_
    · simp only [Prod.fst_add, decide_eq_true_eq]
      omega
    · simp only [Prod.snd_add]
      omega

section
variable {capture : String} {width depth : Nat}

/-- The characters of a statement and of what ends it. -/
def Expr.terminated (capture : String) (width depth : Nat) (e : Expr) : List Char :=
  ((e.doc capture).print width depth).toList ++ e.kind.terminator.toList

theorem Kind.punctuated_terminator (kind : Kind) :
    Punctuated kind.terminator.toList (if kind ≠ .block then 1 else 0, 0) := by
  rw [Kind.terminator_eq]
  by_cases hkind : kind = .block
  · rw [if_pos hkind, if_neg (not_not.mpr hkind)]
    exact .of_not_mem (by decide) (by decide)
  · rw [if_neg hkind, if_pos hkind]
    exact ⟨rfl, rfl, .of_unbroken (by decide)⟩

theorem Expr.endsMarked_terminated (e : Expr) : EndsMarked (e.terminated capture width depth) := by
  by_cases hkind : e.kind = .block
  · cases e with
    | block statements =>
      have hlast : EndsMarked (((Expr.block statements).doc capture).print width depth).toList := by
        rw [doc, Doc.toList_print_braced]
        exact endsMarked_concat (by decide : '}' ∈ lineMarks) _
      simpa [terminated, Kind.terminator_eq, hkind] using hlast
    | _ => cases hkind
  · rw [terminated, Kind.terminator_eq, if_neg hkind]
    exact endsMarked_concat (by decide : ';' ∈ lineMarks) _

/-- The statements of a block, on new lines behind a text that ends in a mark. -/
theorem Punctuated.lines {statements : List Expr}
    (h : ∀ e ∈ statements,
      Punctuated ((e.doc capture).print width depth).toList (punctuation.total e))
    {begun : List Char} {m : Nat × Nat} (hbegun : Punctuated begun m) (hend : EndsMarked begun) :
    Punctuated (begun ++ ((Expr.lines capture statements).print width depth).toList)
        (m + (statements.map Expr.lineCount).sum) ∧
      EndsMarked (begun ++ ((Expr.lines capture statements).print width depth).toList) := by
  induction statements generalizing begun m with
  | nil => simpa [Expr.lines] using ⟨hbegun, hend⟩
  | cons e es ih =>
    have hblanks : Punctuated (List.replicate (width * depth) ' ') 0 :=
      .of_not_mem (by simp [List.mem_replicate]) (by simp [List.mem_replicate])
    have hline := hbegun.append_newline hend
      (hblanks.append ((h e (by simp)).append e.kind.punctuated_terminator))
    have hended : EndsMarked (e.terminated capture width depth) := e.endsMarked_terminated
    have hlineEnd := (hended.append ('\n' :: List.replicate (width * depth) ' ')).append begun
    obtain ⟨hrest, hrestEnd⟩ := ih (fun d hd => h d (List.mem_cons_of_mem e hd)) hline hlineEnd
    have htext : begun ++ ((Expr.lines capture (e :: es)).print width depth).toList =
        begun ++ '\n' :: (List.replicate (width * depth) ' ' ++ e.terminated capture width depth) ++
          ((Expr.lines capture es).print width depth).toList := by
      simp [Expr.lines, Expr.terminated, String.toList_append]
    rw [htext]
    refine ⟨hrest.congr ?_, hrestEnd⟩
    rw [List.map_cons, List.sum_cons, Expr.lineCount]
    abel

end

/-- What is counted in a document is what its text has, at every depth. -/
theorem Doc.Weighs.punctuated {capture : String} {doc : Doc} {m : Nat × Nat}
    (h : doc.Weighs Unpunctuated capture punctuation m) (width depth : Nat) :
    Punctuated (doc.print width depth).toList m := by
  induction h generalizing depth with
  | nil => exact .of_not_mem (by simp) (by simp)
  | text htext => exact .of_not_mem htext.1 htext.2
  | append _ _ hbefore hafter =>
    rw [print_append, String.toList_append]
    exact (hbefore depth).append (hafter depth)
  | parenthesized _ ih =>
    rw [toList_print_parenthesized]
    exact (ih depth).enclosed (by decide) (by decide)
  | braced _ ih =>
    rw [toList_print_braced]
    exact (ih depth).enclosed (by decide) (by decide)
  | captured hcapture =>
    rw [toList_print_bracketed]
    exact (Punctuated.of_not_mem hcapture.1 hcapture.2).enclosed (by decide) (by decide)
  | subscript _ _ ih =>
    rw [toList_print_bracketed]
    exact ((ih depth).enclosed (by decide) (by decide)).congr (zero_add _).symm
  | semicolon =>
    rw [print_text]
    exact ⟨rfl, rfl, .of_unbroken (by decide)⟩
  | @block statements _ _ ih =>
    have hopener : Punctuated ['{'] 0 := .of_not_mem (by decide) (by decide)
    have hcloser : Punctuated (List.replicate (width * depth) ' ' ++ ['}']) 0 :=
      .of_not_mem (by simp [List.mem_replicate]) (by simp [List.mem_replicate])
    obtain ⟨hlines, hend⟩ := Punctuated.lines (fun e he => ih e he (depth + 1)) hopener
      (endsMarked_concat (by decide) [])
    have htext : ((Doc.braced
        (.nest (Expr.lines capture statements) ++ .line)).print width depth).toList =
        ['{'] ++ ((Expr.lines capture statements).print width (depth + 1)).toList ++
          '\n' :: (List.replicate (width * depth) ' ' ++ ['}']) := by
      simp [toList_print_braced, String.toList_append]
    rw [htext]
    refine (hlines.append_newline hend hcloser).congr ?_
    rw [sum_lineCount, punctuation]
    refine Prod.ext ?_ ?_
    · simp only [Prod.fst_add, Prod.fst_zero]
      omega
    · simp only [Prod.snd_add, Prod.snd_zero]
      omega

/-! ## Units -/

/-- The statements of a block. -/
def Expr.statements? : Expr → Option (List Expr)
  | .block statements => some statements
  | _ => none

/-- Whether an expression is a lambda whose body is not a block. -/
def Expr.isShortLambda : Expr → Bool
  | .lambda body _ => body.kind ≠ .block
  | _ => false

/-- The statement lists of all blocks in a unit. -/
def CompilationUnit.blocks (u : CompilationUnit) : List (List Expr) :=
  (Tree.unit u).nodes.filterMap Expr.statements?

theorem sum_own_punctuation (nodes : List Expr) :
    (nodes.map punctuation.own).sum =
      (((nodes.filterMap Expr.statements?).map fun statements =>
          statements.countP (·.kind ≠ .block)).sum + nodes.countP Expr.isShortLambda,
        (((nodes.filterMap Expr.statements?).filter (!·.isEmpty)).map (·.length + 1)).sum) := by
  induction nodes with
  | nil => rfl
  | cons e es ih =>
    rw [List.map_cons, List.sum_cons, ih, List.filterMap_cons, List.countP_cons]
    cases e with
    | lambda body parameters =>
      by_cases hbody : body.kind = .block
      · simp [Weights.own, Expr.statements?, Expr.isShortLambda, hbody]
      · simp [Weights.own, Expr.statements?, Expr.isShortLambda, hbody, punctuation, add_assoc,
          Nat.add_comm 1]
    | block statements =>
      cases statements with
      | nil => simp [Weights.own, Expr.statements?, Expr.isShortLambda]
      | cons first rest =>
        simp [Weights.own, Expr.statements?, Expr.isShortLambda, punctuation, add_assoc]
    | _ => simp [Weights.own, Expr.statements?, Expr.isShortLambda, punctuation]

theorem Expr.unitLine_eq (style : Style) (e : Expr) :
    e.unitLine style =
      String.ofList (e.terminated style.lambdaCapture style.indentWidth 0) ++ "\n" := by
  rw [unitLine, Tree.text_eq_print, terminated, ← String.toList_append, String.ofList_toList]
  rfl

section
variable {style : Style} {statements : List Expr}

theorem CompilationUnit.punctuated_text
    (h : ∀ e ∈ statements, Punctuated ((e.doc style.lambdaCapture).print style.indentWidth 0).toList
      (punctuation.total e)) :
    Punctuated ((Tree.unit ⟨statements⟩).text style).toList (statements.map Expr.lineCount).sum := by
  rw [CompilationUnit.text_eq_join]
  induction statements with
  | nil => exact .of_not_mem (by simp) (by simp)
  | cons e es ih =>
    have hrest := ih fun d hd => h d (List.mem_cons_of_mem e hd)
    have hline := ((h e (by simp)).append e.kind.punctuated_terminator).append_newline
      e.endsMarked_terminated (.of_not_mem List.not_mem_nil List.not_mem_nil)
    have htext : (String.join ((e :: es).map (Expr.unitLine style))).toList =
        e.terminated style.lambdaCapture style.indentWidth 0 ++ '\n' :: [] ++
          (String.join (es.map (Expr.unitLine style))).toList := by
      rw [List.map_cons, String.join_cons, String.toList_append, Expr.unitLine_eq,
        String.toList_append, String.toList_ofList]
      rfl
    rw [htext]
    exact (hline.append hrest).congr (by simp [Expr.lineCount])

theorem CompilationUnit.exists_lines
    (h : ∀ e ∈ statements, Punctuated ((e.doc style.lambdaCapture).print style.indentWidth 0).toList
      (punctuation.total e)) :
    ∃ lines : List String,
      (Tree.unit ⟨statements⟩).text style = String.join (lines.map (· ++ "\n")) ∧
        ∀ line ∈ lines, Unbroken line ∧ EndsMarked line.toList := by
  rw [CompilationUnit.text_eq_join]
  induction statements with
  | nil => exact ⟨[], rfl, by simp⟩
  | cons e es ih =>
    have hmarked := ((h e (by simp)).append e.kind.punctuated_terminator).marked
    obtain ⟨first, hfirst, hfirstMarked⟩ := hmarked.exists_lines e.endsMarked_terminated
    obtain ⟨rest, hrest, hrestMarked⟩ := ih fun d hd => h d (List.mem_cons_of_mem e hd)
    refine ⟨first ++ rest, ?_, List.forall_mem_append.mpr ⟨hfirstMarked, hrestMarked⟩⟩
    rw [List.map_cons, String.join_cons, Expr.unitLine_eq, List.map_append, String.join_append,
      ← hrest, ← hfirst]
    rfl

end

/-- Every statement of a unit is ended once, on a line of its own.  Semicolons stand behind the
statements that are not blocks, in the unit and in all of its blocks, and in the lambdas that have
no block as their body; line breaks stand behind the statements of the unit and before the
statements and the closing brackets of its blocks; and every line ends in a bracket of a block or a
semicolon. -/
theorem CompilationUnit.statements_terminated (style : Style) (u : CompilationUnit)
    (hcapture : Unpunctuated style.lambdaCapture)
    (htexts : ∀ text, Expr.literal text ∈ (Tree.unit u).nodes → Unpunctuated text) :
    ((Tree.unit u).text style).toList.count ';' =
        ((u.statements :: u.blocks).map fun statements =>
          statements.countP (·.kind ≠ .block)).sum +
          (Tree.unit u).nodes.countP Expr.isShortLambda ∧
      ((Tree.unit u).text style).toList.count '\n' =
        u.statements.length + ((u.blocks.filter (!·.isEmpty)).map (·.length + 1)).sum ∧
      ∃ lines : List String,
        (Tree.unit u).text style = String.join (lines.map (· ++ "\n")) ∧
          ∀ line ∈ lines, Unbroken line ∧
            ∃ c ∈ ['{', '}', ';'], line.toList.getLast? = some c := by
  obtain ⟨statements⟩ := u
  have hown : ∀ x ∈ statements.flatMap Expr.nodes, ∀ text ∈ x.ownTexts, Unpunctuated text := by
    intro x hx text htext
    exact Expr.isText_of_mem_ownTexts htext Identifier.unpunctuated
      (fun elementType _ _ => elementType.unpunctuated) (fun content h => htexts content (h ▸ hx))
  have hstatements : ∀ e ∈ statements,
      Punctuated ((e.doc style.lambdaCapture).print style.indentWidth 0).toList
        (punctuation.total e) := fun e he =>
    (e.weighs connecting_unpunctuated hcapture fun x hx =>
      hown x (List.mem_flatMap.mpr ⟨e, he, hx⟩)).punctuated style.indentWidth 0
  have htext := CompilationUnit.punctuated_text hstatements
  have hcounts : (statements.map Expr.lineCount).sum =
      (((CompilationUnit.blocks ⟨statements⟩).map fun statements =>
          statements.countP (·.kind ≠ .block)).sum +
          (Tree.unit ⟨statements⟩).nodes.countP Expr.isShortLambda,
        (((CompilationUnit.blocks ⟨statements⟩).filter (!·.isEmpty)).map (·.length + 1)).sum) +
        (statements.countP (·.kind ≠ .block), statements.length) := by
    rw [sum_lineCount, Weights.sum_total, sum_own_punctuation]
    rfl
  rw [hcounts] at htext
  refine ⟨htext.semicolons.trans ?_, htext.breaks.trans ?_, exists_lines hstatements⟩
  · simp only [Prod.fst_add, List.map_cons, List.sum_cons]
    omega
  · simp only [Prod.snd_add]
    omega

def callbackUnit : CompilationUnit where
  statements := [.call (.literal "each") [.lambda (.block
      [.assign (.literal "x") (.lambda (.ret none) []), .block []]) [.literal "int x"]],
    .block [.literal "y"]]

/-- Blocks in an argument and in each other, one of them empty, and a lambda without a block. -/
theorem statements_terminated_callbackUnit :
    Unpunctuated "&" ∧
      (∀ text, Expr.literal text ∈ (Tree.unit callbackUnit).nodes → Unpunctuated text) ∧
      (Tree.unit callbackUnit).text {} =
        "\n".intercalate ["each([&](int x) " ++ String.singleton '{', "    x = [&]() { return; };",
          "    {}", String.singleton '}' ++ ");", String.singleton '{', "    y;",
          String.singleton '}', ""] ∧
      ((Tree.unit callbackUnit).text {}).toList.count ';' = 4 ∧
      ((Tree.unit callbackUnit).text {}).toList.count '\n' = 7 := by
  have hcapture : Unpunctuated "&" := by decide
  have htexts : ∀ text, Expr.literal text ∈ (Tree.unit callbackUnit).nodes →
      Unpunctuated text := by
    intro text htext
    have hliterals : text = "each" ∨ text = "x" ∨ text = "int x" ∨ text = "y" := by
      simpa [callbackUnit, Tree.nodes, Tree.tops, Expr.nodes] using htext
    rcases hliterals with rfl | rfl | rfl | rfl <;> decide
  obtain ⟨hsemicolons, hbreaks, -⟩ :=
    CompilationUnit.statements_terminated {} callbackUnit hcapture htexts
  exact ⟨hcapture, htexts, by decide, hsemicolons.trans (by decide), hbreaks.trans (by decide)⟩

end CppTree
