import CppTree.Proofs.Layout.Built
import CppTree.Proofs.Names
import CppTree.Proofs.Rendering.Handlers

/-!
# The order of strings in a rendering

A rendering writes the capture list and the literals of a tree and, beside them, ASCII characters
only.  So the characters beyond ASCII are those of these strings, in the order of the source.  Main
statements: `Tree.beyondAscii_render`, for strings of any characters, and
`Tree.beyondAscii_render_eq_join`, for strings without ASCII characters.
-/

namespace CppTree

/-! ## Characters beyond ASCII -/

def IsAscii (text : String) : Prop :=
  ∀ c ∈ text.toList, c.isAscii = true

/-- Whether a text has no ASCII characters. -/
def IsBeyondAscii (text : String) : Prop :=
  ∀ c ∈ text.toList, c.isAscii = false

instance (text : String) : Decidable (IsAscii text) :=
  List.decidableBAll (fun c : Char => c.isAscii = true) text.toList

instance (text : String) : Decidable (IsBeyondAscii text) :=
  List.decidableBAll (fun c : Char => c.isAscii = false) text.toList

/-- A text without its ASCII characters. -/
def beyondAscii (text : String) : String :=
  String.ofList (text.toList.filter fun c => !c.isAscii)

theorem beyondAscii_append (before after : String) :
    beyondAscii (before ++ after) = beyondAscii before ++ beyondAscii after := by
  rw [beyondAscii, String.toList_append, List.filter_append, String.ofList_append]
  rfl

theorem IsAscii.beyondAscii_eq {text : String} (h : IsAscii text) : beyondAscii text = "" := by
  have hnone : text.toList.filter (fun c => !c.isAscii) = [] :=
    List.filter_eq_nil_iff.mpr fun c hc => by simp [h c hc]
  rw [beyondAscii, hnone]

theorem IsBeyondAscii.beyondAscii_eq {text : String} (h : IsBeyondAscii text) :
    beyondAscii text = text := by
  have hall : text.toList.filter (fun c => !c.isAscii) = text.toList :=
    List.filter_eq_self.mpr fun c hc => by simp [h c hc]
  rw [beyondAscii, hall, String.ofList_toList]

theorem spelled_isAscii : Doc.Spelled IsAscii where
  fixed := by decide
  binary op := by cases op <;> decide
  prefixed op := by cases op <;> decide
  suffixed op := by cases op <;> decide
  access op := by cases op <;> decide
  member name _ hc := isAscii_of_isNameChar (isNameChar_of_isIdentifier name.wellSpelled hc)
  elementType name _ hc := isAscii_of_isTypeChar (isTypeChar_of_isTypeName name.wellSpelled hc)

/-! ## Strings -/

mutual

/-- The strings of an expression, in the order of its parts; of a lambda, the capture list, then the
parameters, then the body. -/
def Expr.strings (capture : String) : Expr → List String
  | .assign target value => target.strings capture ++ value.strings capture
  | .binary _ left right => left.strings capture ++ right.strings capture
  | .prefixed _ operand => operand.strings capture
  | .suffixed _ operand => operand.strings capture
  | .index base position => base.strings capture ++ position.strings capture
  | .call callee arguments => callee.strings capture ++ Expr.stringsOf capture arguments
  | .lambda body parameters =>
    capture :: (Expr.stringsOf capture parameters ++ body.strings capture)
  | .access base _ _ => base.strings capture
  | .allocation _ dimensions => Expr.stringsOf capture dimensions
  | .conditional condition thenBranch elseBranch =>
    condition.strings capture ++ thenBranch.strings capture ++ elseBranch.strings capture
  | .tuple elements => Expr.stringsOf capture elements
  | .ret none => []
  | .ret (some value) => value.strings capture
  | .block statements => Expr.stringsOf capture statements
  | .literal text => [text]

def Expr.stringsOf (capture : String) : List Expr → List String
  | [] => []
  | e :: es => e.strings capture ++ Expr.stringsOf capture es

end

@[simp]
theorem Expr.stringsOf_eq_flatMap (capture : String) (es : List Expr) :
    Expr.stringsOf capture es = es.flatMap (Expr.strings capture) := by
  induction es with
  | nil => simp [Expr.stringsOf]
  | cons e es ih => simp [Expr.stringsOf, ih]

def Tree.strings (capture : String) (tree : Tree) : List String :=
  tree.tops.flatMap (Expr.strings capture)

theorem Expr.mem_strings_part {capture s : String} {e : Expr} (h : s ∈ e.strings capture) :
    s = capture ∨ e = .literal s ∨ ∃ part ∈ e.parts, s ∈ part.strings capture := by
  cases e with
  | lambda body parameters =>
    simp only [strings, stringsOf_eq_flatMap, List.mem_cons, List.mem_append, List.mem_flatMap] at h
    rcases h with rfl | ⟨e, he, hs⟩ | hs
    · exact .inl rfl
    · exact .inr (.inr ⟨e, by simp [parts, he], hs⟩)
    · exact .inr (.inr ⟨body, by simp [parts], hs⟩)
  | literal text =>
    rw [strings, List.mem_singleton] at h
    exact .inr (.inl (by rw [h]))
  | ret value =>
    cases value with
    | none => cases h
    | some value => exact .inr (.inr ⟨value, by simp [parts], h⟩)
  | _ => exact .inr (.inr (by simpa [strings, parts, or_assoc] using h))

/-- The strings of an expression are the capture list and its literals. -/
theorem Expr.mem_strings {capture s : String} (e : Expr) (h : s ∈ e.strings capture) :
    s = capture ∨ .literal s ∈ e.nodes := by
  induction e using Expr.induct_parts with
  | h e ih =>
    rcases mem_strings_part h with hcapture | rfl | ⟨part, hpart, hs⟩
    · exact .inl hcapture
    · exact .inr (by simp [nodes])
    · refine (ih part hpart hs).imp_right fun hnode => ?_
      rw [nodes_eq]
      exact List.mem_cons_of_mem e (List.mem_flatMap.mpr ⟨part, hpart, hnode⟩)

/-! ## Documents -/

namespace Doc

/-- What is left of a document's text without its ASCII characters; no layout adds any other. -/
def beyondAscii : Doc → String
  | nil | line => ""
  | text content => CppTree.beyondAscii content
  | nest body => body.beyondAscii
  | append before after => before.beyondAscii ++ after.beyondAscii

theorem beyondAscii_print (width depth : Nat) (doc : Doc) :
    CppTree.beyondAscii (doc.print width depth) = doc.beyondAscii := by
  induction doc generalizing depth with
  | nil => rfl
  | text content => rfl
  | line =>
    refine IsAscii.beyondAscii_eq fun c hc => ?_
    rw [toList_print_line, List.mem_cons, List.mem_replicate] at hc
    rcases hc with rfl | ⟨-, rfl⟩ <;> rfl
  | nest body ih => exact ih (depth + 1)
  | append before after hbefore hafter =>
    rw [print, beyondAscii_append, hbefore, hafter, beyondAscii]

@[simp]
theorem beyondAscii_nil : nil.beyondAscii = "" := rfl

@[simp]
theorem beyondAscii_text (content : String) :
    (text content).beyondAscii = CppTree.beyondAscii content := rfl

@[simp]
theorem beyondAscii_line : line.beyondAscii = "" := rfl

@[simp]
theorem beyondAscii_nest (body : Doc) : (nest body).beyondAscii = body.beyondAscii := rfl

@[simp]
theorem beyondAscii_append (before after : Doc) :
    (before ++ after).beyondAscii = before.beyondAscii ++ after.beyondAscii := rfl

@[simp]
theorem beyondAscii_parenthesized (body : Doc) :
    body.parenthesized.beyondAscii = body.beyondAscii := by
  simp (disch := decide) [parenthesized, IsAscii.beyondAscii_eq]

@[simp]
theorem beyondAscii_bracketed (body : Doc) : body.bracketed.beyondAscii = body.beyondAscii := by
  simp (disch := decide) [bracketed, IsAscii.beyondAscii_eq]

@[simp]
theorem beyondAscii_braced (body : Doc) : body.braced.beyondAscii = body.beyondAscii := by
  simp (disch := decide) [braced, IsAscii.beyondAscii_eq]

@[simp]
theorem beyondAscii_operand (demand binding : Nat) (body : Doc) :
    (operand demand binding body).beyondAscii = body.beyondAscii := by
  unfold operand
  split <;> simp

theorem beyondAscii_prefixed {operator : String} (h : IsAscii operator) (body : Doc) :
    (prefixed operator body).beyondAscii = body.beyondAscii := by
  unfold prefixed
  split <;> simp (disch := decide) [h.beyondAscii_eq, IsAscii.beyondAscii_eq]

theorem beyondAscii_joined {separator : String} (h : IsAscii separator) (docs : List Doc) :
    (joined separator docs).beyondAscii = String.join (docs.map beyondAscii) := by
  fun_induction joined separator docs with
  | case1 => rfl
  | case2 last => simp
  | case3 first second rest ih => simp [ih, h.beyondAscii_eq]

theorem beyondAscii_dimensions (docs : List Doc) :
    (docs.foldr (fun size rest => size.bracketed ++ rest) nil).beyondAscii =
      String.join (docs.map beyondAscii) := by
  induction docs with
  | nil => rfl
  | cons size sizes ih => simp [ih]

@[simp]
theorem beyondAscii_lambdaBody (kind : Kind) (body : Doc) :
    (lambdaBody kind body).beyondAscii = body.beyondAscii := by
  cases kind <;> simp (disch := decide) [lambdaBody, IsAscii.beyondAscii_eq]

end Doc

/-! ## Renderings -/

theorem Kind.isAscii_terminator (kind : Kind) : IsAscii kind.terminator := by
  cases kind <;> decide

theorem Expr.beyondAscii_lines (capture : String) (statements : List Expr) :
    (Expr.lines capture statements).beyondAscii =
      String.join ((statements.map (Expr.doc capture)).map Doc.beyondAscii) := by
  induction statements with
  | nil => rfl
  | cons e es ih => simp [lines, ih, e.kind.isAscii_terminator.beyondAscii_eq]

theorem Expr.join_beyondAscii_docs {capture : String} {es : List Expr}
    (h : ∀ e ∈ es, (e.doc capture).beyondAscii = beyondAscii (String.join (e.strings capture))) :
    String.join ((es.map (Expr.doc capture)).map Doc.beyondAscii) =
      beyondAscii (String.join (es.flatMap (Expr.strings capture))) := by
  induction es with
  | nil => rfl
  | cons e es ih =>
    rw [List.map_cons, List.map_cons, String.join_cons, h e (by simp),
      ih fun d hd => h d (List.mem_cons_of_mem e hd), List.flatMap_cons, String.join_append,
      beyondAscii_append]

/-- Beyond ASCII, the document of an expression holds what its strings hold, in their order. -/
theorem Expr.beyondAscii_doc (capture : String) (e : Expr) :
    (e.doc capture).beyondAscii = beyondAscii (String.join (e.strings capture)) := by
  induction e using Expr.induct with
  | assign target value htarget hvalue =>
    simp (disch := decide) [doc, strings, htarget, hvalue, IsAscii.beyondAscii_eq,
      beyondAscii_append, String.join_append]
  | binary op left right hleft hright =>
    simp (disch := decide) [doc, strings, hleft, hright, (spelled_isAscii.binary op).beyondAscii_eq,
      IsAscii.beyondAscii_eq, beyondAscii_append, String.join_append]
  | prefixed op operand hoperand =>
    rw [doc, Doc.beyondAscii_prefixed (spelled_isAscii.prefixed op), Doc.beyondAscii_operand,
      hoperand, strings]
  | suffixed op operand hoperand =>
    simp [doc, strings, hoperand, (spelled_isAscii.suffixed op).beyondAscii_eq]
  | index base position hbase hposition =>
    simp [doc, strings, hbase, hposition, beyondAscii_append, String.join_append]
  | call callee arguments hcallee harguments =>
    rw [doc, docs_eq_map, Doc.beyondAscii_append, Doc.beyondAscii_operand, hcallee,
      Doc.beyondAscii_parenthesized, Doc.beyondAscii_joined (by decide),
      join_beyondAscii_docs harguments, strings, stringsOf_eq_flatMap, String.join_append,
      beyondAscii_append]
  | lambda body parameters hbody hparameters =>
    have hlist : (Doc.joined ", " (parameters.map (Expr.doc capture))).beyondAscii =
        beyondAscii (String.join (parameters.flatMap (Expr.strings capture))) := by
      rw [Doc.beyondAscii_joined (by decide), join_beyondAscii_docs hparameters]
    simp (disch := decide) [doc, strings, hbody, hlist, IsAscii.beyondAscii_eq, beyondAscii_append,
      String.join_append, String.append_assoc]
  | access base op member hbase =>
    simp [doc, strings, hbase, (spelled_isAscii.access op).beyondAscii_eq,
      (spelled_isAscii.member member).beyondAscii_eq]
  | allocation elementType dimensions hdimensions =>
    rw [doc, docs_eq_map, Doc.beyondAscii_append, Doc.beyondAscii_append, Doc.beyondAscii_text,
      Doc.beyondAscii_text, IsAscii.beyondAscii_eq (by decide),
      (spelled_isAscii.elementType elementType).beyondAscii_eq, String.empty_append,
      String.empty_append, strings, stringsOf_eq_flatMap]
    split
    next hempty =>
      rw [List.isEmpty_iff.mp hempty]
      rfl
    next => rw [Doc.beyondAscii_dimensions, join_beyondAscii_docs hdimensions]
  | conditional condition thenBranch elseBranch hcondition hthen helse =>
    simp (disch := decide) [doc, strings, hcondition, hthen, helse, IsAscii.beyondAscii_eq,
      beyondAscii_append, String.join_append, String.append_assoc]
  | tuple elements helements =>
    rw [doc, docs_eq_map, Doc.beyondAscii_append, Doc.beyondAscii_text,
      IsAscii.beyondAscii_eq (by decide), String.empty_append, Doc.beyondAscii_parenthesized,
      Doc.beyondAscii_joined (by decide), join_beyondAscii_docs helements, strings,
      stringsOf_eq_flatMap]
  | ret value hvalue =>
    cases value with
    | none => rfl
    | some value => simp (disch := decide) [doc, strings, hvalue value rfl, IsAscii.beyondAscii_eq]
  | block statements hstatements =>
    rw [doc, Doc.beyondAscii_braced, strings, stringsOf_eq_flatMap]
    split
    next hempty =>
      rw [List.isEmpty_iff.mp hempty]
      rfl
    next =>
      rw [Doc.beyondAscii_append, Doc.beyondAscii_nest, Doc.beyondAscii_line, String.append_empty,
        beyondAscii_lines, join_beyondAscii_docs hstatements]
  | literal text => simp [doc, strings]

theorem Tree.beyondAscii_doc (capture : String) (tree : Tree) :
    (tree.doc capture).beyondAscii = beyondAscii (String.join (tree.strings capture)) := by
  cases tree with
  | unit u =>
    obtain ⟨statements⟩ := u
    rw [Tree.strings, Tree.tops, ← Expr.join_beyondAscii_docs fun e _ => e.beyondAscii_doc capture]
    show (CompilationUnit.doc capture ⟨statements⟩).beyondAscii = _
    rw [CompilationUnit.doc]
    induction statements with
    | nil => rfl
    | cons e es ih =>
      have hbreak : IsAscii "\n" := by decide
      simp [ih, e.kind.isAscii_terminator.beyondAscii_eq, hbreak.beyondAscii_eq]
  | statement e | expression e => simp [Tree.doc, Tree.strings, Tree.tops, e.beyondAscii_doc]

/-- Beyond ASCII, a rendering holds what the strings of the tree hold, in their order. -/
theorem Tree.beyondAscii_render (renderer : Renderer) (tree : Tree) :
    beyondAscii (renderer.render tree).1 =
      beyondAscii (String.join (tree.strings renderer.style.lambdaCapture)) := by
  rw [Renderer.render_eq, Doc.beyondAscii_print, beyondAscii_doc]

/-- Without its ASCII characters, a rendering is its strings in their order, each once, if these
have no ASCII characters. -/
theorem Tree.beyondAscii_render_eq_join (renderer : Renderer) (tree : Tree)
    (hcapture : IsBeyondAscii renderer.style.lambdaCapture)
    (htexts : ∀ text, Expr.literal text ∈ tree.nodes → IsBeyondAscii text) :
    beyondAscii (renderer.render tree).1 =
      String.join (tree.strings renderer.style.lambdaCapture) := by
  have hjoin : IsBeyondAscii (String.join (tree.strings renderer.style.lambdaCapture)) := by
    intro c hc
    rw [String.toList_join, List.mem_flatMap] at hc
    obtain ⟨s, hs, hc⟩ := hc
    obtain ⟨top, htop, hs⟩ := List.mem_flatMap.mp hs
    rcases top.mem_strings hs with rfl | hnode
    · exact hcapture c hc
    · exact htexts s (List.mem_flatMap.mpr ⟨top, htop, hnode⟩) c hc
  rw [beyondAscii_render, hjoin.beyondAscii_eq]

def accentedUnit : Tree :=
  .unit ⟨[.call (.literal "é") [.lambda (.ret (some (.literal "ü"))) [.literal "ñ"]],
    .block [.access (.allocation ⟨"int", by decide⟩ [.literal "ö"]) .scope ⟨"size", by decide⟩]]⟩

/-- The capture list and the parameter of the lambda come before its body. -/
theorem beyondAscii_render_accentedUnit :
    IsBeyondAscii "ø" ∧ (∀ text, Expr.literal text ∈ accentedUnit.nodes → IsBeyondAscii text) ∧
      (Renderer.render ⟨⟨2, "ø"⟩, 0⟩ accentedUnit).1 =
        "\n".intercalate ["é([ø](ñ) { return ü; });", String.singleton '{',
          "  (new int[ö])::size;", String.singleton '}', ""] ∧
      beyondAscii (Renderer.render ⟨⟨2, "ø"⟩, 0⟩ accentedUnit).1 = "éøñüö" := by
  have hcapture : IsBeyondAscii "ø" := by decide
  have htexts : ∀ text, Expr.literal text ∈ accentedUnit.nodes → IsBeyondAscii text := by
    intro text htext
    have hliterals : text = "é" ∨ text = "ü" ∨ text = "ñ" ∨ text = "ö" := by
      simpa [accentedUnit, Tree.nodes, Tree.tops, Expr.nodes] using htext
    rcases hliterals with rfl | rfl | rfl | rfl <;> decide
  have horder := accentedUnit.beyondAscii_render_eq_join ⟨⟨2, "ø"⟩, 0⟩ hcapture htexts
  exact ⟨hcapture, htexts, by decide, horder.trans (by decide)⟩

end CppTree
