import CppTree.Proofs.Lexing.Leaves

/-!
# Tokens stay separate

A rendering is read as the tokens of its tree: no two of them merge, and none falls apart.  The
induction over the tree is done once for both kinds of readers, in `Expr.scanned`.
-/

namespace CppTree

/-- Whether a reader gets along with a node that is rendered with this capture list. -/
def Reading.Legible (reading : Reading) (capture : String) (e : Expr) : Prop :=
  match reading with
  | .plain => e.isPlain = true ∧ (e.kind = .lambda → capture = "&" ∨ capture = "=")
  | .rendered known => e.isProper = true ∧ known = capture

/-- Whether an expression before this text ends there.  Only a plain reader can do without the
semicolon of a return. -/
def Expr.Ends (reading : Reading) (e : Expr) (rest : List Char) : Prop :=
  (reading ≠ .plain → e.kind = .ret → rest.head? = some ';') ∧ EndsWord rest

/-! ## First characters -/

namespace Doc

theorem first?_append_of_some {before after : Doc} {c : Char} (h : before.first? = some c) :
    (before ++ after).first? = some c := by
  show (before.first? <|> after.first?) = some c
  rw [h]
  rfl

theorem edge_operand (demand binding : Nat) {body : Doc}
    (h : ∃ c, body.first? = some c ∧ isEdge c = true) :
    ∃ c, (operand demand binding body).first? = some c ∧ isEdge c = true := by
  unfold operand
  split
  · exact ⟨'(', rfl, by decide⟩
  · exact h

theorem edge_append {before : Doc} (after : Doc)
    (h : ∃ c, before.first? = some c ∧ isEdge c = true) :
    ∃ c, (before ++ after).first? = some c ∧ isEdge c = true :=
  let ⟨c, hc, hedge⟩ := h
  ⟨c, first?_append_of_some hc, hedge⟩

theorem edge_identifier {w : String} (hw : isIdentifier w.toList = true) :
    ∃ c, (text w).first? = some c ∧ isEdge c = true :=
  let ⟨c, hc, hstart⟩ := first?_of_isIdentifier hw
  ⟨c, hc, by simp [isEdge, hstart]⟩

theorem edge_signedIdentifier {w : String} (hw : isSignedIdentifier w.toList = true) :
    ∃ c, (text w).first? = some c ∧ isEdge c = true := by
  rw [first?, String.front?_eq]
  cases hchars : w.toList with
  | nil => simp [hchars, isSignedIdentifier] at hw
  | cons c cs =>
    refine ⟨c, rfl, ?_⟩
    have hsigns : (['-', '+', '!', '~', '*', '&'].all
        ['-', '+', '!', '~', '*', '&', '(', '[', '{'].contains) = true := by decide
    simp only [hchars, isSignedIdentifier, isIdentifier, Bool.or_eq_true, Bool.and_eq_true] at hw
    simp only [isEdge, Bool.or_eq_true]
    rcases hw with hw | hw
    · exact .inl hw.1
    · exact .inr (List.all_eq_true.mp hsigns c (by simpa using hw.1))

end Doc

variable {reading : Reading} {capture : String}

/-- Every expression starts with a character that is fit to stand behind a prefix operator. -/
theorem Expr.edge (e : Expr) (h : ∀ x ∈ e.nodes, reading.Legible capture x) :
    ∃ c, (e.doc capture).first? = some c ∧ isEdge c = true := by
  induction e using Expr.induct with
  | assign target value htarget _ =>
    have htarget := htarget (Expr.part_of_nodes h (by simp [parts]))
    exact Doc.edge_append _ (Doc.edge_append _ (Doc.edge_operand _ _ htarget))
  | binary op left right hleft _ =>
    have hleft := hleft (Expr.part_of_nodes h (by simp [parts]))
    exact Doc.edge_append _ (Doc.edge_append _ (Doc.edge_append _ (Doc.edge_append _
      (Doc.edge_operand _ _ hleft))))
  | prefixed op operand _ =>
    have hop : ∃ c, (Doc.text op.spelling).first? = some c ∧ isEdge c = true := by
      cases op <;> exact ⟨_, rfl, by decide⟩
    -- With or without a blank, the operator comes first.
    rw [doc, Doc.prefixed]
    split
    · exact Doc.edge_append _ (Doc.edge_append _ hop)
    · exact Doc.edge_append _ hop
  | suffixed op operand hoperand =>
    have hoperand := hoperand (Expr.part_of_nodes h (by simp [parts]))
    exact Doc.edge_append _ (Doc.edge_operand _ _ hoperand)
  | index base position hbase _ =>
    have hbase := hbase (Expr.part_of_nodes h (by simp [parts]))
    exact Doc.edge_append _ (Doc.edge_operand _ _ hbase)
  | call callee arguments hcallee _ =>
    have hcallee := hcallee (Expr.part_of_nodes h (by simp [parts]))
    exact Doc.edge_append _ (Doc.edge_operand _ _ hcallee)
  | lambda body parameters _ _ => exact ⟨'[', rfl, by decide⟩
  | access base op member hbase =>
    have hbase := hbase (Expr.part_of_nodes h (by simp [parts]))
    exact Doc.edge_append _ (Doc.edge_append _ (Doc.edge_operand _ _ hbase))
  | allocation elementType dimensions _ => exact ⟨'n', rfl, by decide⟩
  | conditional condition thenBranch elseBranch hcondition _ _ =>
    have hcondition := hcondition (Expr.part_of_nodes h (by simp [parts]))
    exact Doc.edge_append _ (Doc.edge_append _ (Doc.edge_append _ (Doc.edge_append _
      (Doc.edge_operand _ _ hcondition))))
  | tuple elements _ => exact ⟨'s', rfl, by decide⟩
  | ret value _ => cases value <;> exact ⟨'r', rfl, by decide⟩
  | block statements _ => exact ⟨'{', rfl, by decide⟩
  | literal text =>
    have hlegible := Expr.self_of_nodes h
    cases reading with
    | plain => exact Doc.edge_signedIdentifier hlegible.1
    | rendered known =>
      have hname := hlegible.1
      simp only [isProper, isDelimited, isName, Bool.and_eq_true] at hname
      exact Doc.edge_identifier hname.1.1.1

/-! ## One expression -/

/-- What is to be shown of every expression: between suitable texts, its text is read as its
tokens. -/
def Expr.Scanned (reading : Reading) (capture : String) (e : Expr) : Prop :=
  (∀ x ∈ e.nodes, reading.Legible capture x) →
    Scans reading (e.Ends reading) .operand .operator (e.doc capture) (e.tokens reading capture)

namespace Expr

theorem Scanned.intro {e : Expr} (he : (∀ x ∈ e.nodes, reading.Legible capture x) →
      Scans reading EndsWord .operand .operator (e.doc capture) (e.tokens reading capture)) :
    e.Scanned reading capture :=
  fun h => (he h).weaken fun _ hrest => hrest.2

/-- In the place of a value, an expression is read whatever ends its last word. -/
theorem Scanned.value {e part : Expr} (hpart : part.Scanned reading capture)
    (h : ∀ x ∈ e.nodes, reading.Legible capture x) (hmem : part ∈ e.operands) :
    Scans reading EndsWord .operand .operator (part.doc capture) (part.tokens reading capture) := by
  have hparts := part_of_nodes h (mem_parts_of_operands hmem)
  -- Only a return would need a semicolon, and returns have no value.
  refine (hpart hparts).weaken fun rest hrest => ⟨fun hreading hret => ?_, hrest⟩
  have hlegible := self_of_nodes h
  cases reading with
  | plain => exact absurd rfl hreading
  | rendered known =>
    have hvalues := (Bool.and_eq_true _ _ ▸ hlegible.1 : e.isDelimited = true ∧ _).2
    have hvalue := List.all_eq_true.mp hvalues part hmem
    simp [isValue, hret] at hvalue

theorem Scanned.operand {e part : Expr} (hpart : part.Scanned reading capture)
    (h : ∀ x ∈ e.nodes, reading.Legible capture x) (hmem : part ∈ e.operands) (demand : Nat) :
    Scans reading EndsWord .operand .operator (.operand demand part.binding (part.doc capture))
      (Token.operand demand part.binding (part.tokens reading capture)) :=
  (hpart.value h hmem).operand demand part.binding

theorem Scanned.semicolon {e : Expr} (he : e.Scanned reading capture)
    (h : ∀ x ∈ e.nodes, reading.Legible capture x) {follow : List Char → Prop} :
    Scans reading follow .operand .operand (e.doc capture ++ .text ";")
      (e.tokens reading capture ++ [.punct ";"]) := by
  have hsemicolon : Scans reading follow .operator .operand (.text ";") [.punct ";"] :=
    Scans.semicolon
  refine (he h).append hsemicolon fun _ _ rest _ => ⟨fun _ _ => by simp, fun c hc => ?_⟩
  have hc : ';' = c := by simpa using hc
  rw [← hc]
  decide

theorem Scanned.statement {e : Expr} (he : e.Scanned reading capture)
    (h : ∀ x ∈ e.nodes, reading.Legible capture x) :
    ∃ after, Scans reading EndsWord .operand after (e.doc capture ++ .text e.kind.terminator)
      (e.tokens reading capture ++ e.kind.terminatorTokens) := by
  -- Behind a block the reader stands behind an operand; a line break sets that right.
  by_cases hblock : e.kind = .block
  · refine ⟨.operator, ?_⟩
    rw [hblock]
    have hnothing : Scans reading EndsWord .operator .operator (.text "") [] := fun _ _ _ _ => rfl
    have hends : Scans reading EndsWord .operand .operator (e.doc capture)
        (e.tokens reading capture) :=
      (he h).weaken fun _ hrest => ⟨fun _ hret => by simp [hblock] at hret, hrest⟩
    exact hends.append hnothing fun _ _ _ hrest => hrest
  · refine ⟨.operand, ?_⟩
    have hterminator : e.kind.terminator = ";" ∧ e.kind.terminatorTokens = [.punct ";"] := by
      cases hkind : e.kind <;> simp_all [Kind.terminator, Kind.terminatorTokens]
    rw [hterminator.1, hterminator.2]
    exact he.semicolon h

/-- A curly bracket is read alike before and behind an operand. -/
theorem scans_brace {after : Mode} {doc : Doc} {ts : List Token} {follow : List Char → Prop}
    (hbrace : doc.first? = some '{') (h : Scans reading follow .operand after doc ts) :
    Scans reading follow .operator after doc ts := by
  intro width depth rest hrest
  -- The reader of a lambda stands behind an operand when the body comes.
  have hopen (mode : Mode) (cs : List Char) :
      scan reading mode ('{' :: cs) = .openBrace :: scan reading .operand cs := by
    have hpunct : Scans reading Anything mode .operand (String.singleton '{') [.openBrace] := by
      rw [Token.openBrace_eq]
      exact .punct (by decide) (by decide) fun _ _ => by decide
    simpa using hpunct width depth cs trivial
  rw [Doc.first?_eq_head? width depth] at hbrace
  obtain ⟨cs, hcs⟩ := List.head?_eq_some_iff.mp hbrace
  have hread := h width depth rest hrest
  rw [hcs, List.cons_append, hopen] at hread ⊢
  exact hread

theorem Scanned.lambdaBody {body : Expr} (hbody : body.Scanned reading capture)
    (h : ∀ x ∈ body.nodes, reading.Legible capture x) :
    Scans reading EndsWord .operator .operator (.lambdaBody body.kind (body.doc capture))
      (Token.lambdaBody body.kind (body.tokens reading capture)) := by
  have hsemicolon : Scans reading Anything .operand .operand (body.doc capture ++ .text "; ")
      (body.tokens reading capture ++ [.punct ";"]) := by
    simpa using ((hbody.semicolon h).andThen Scans.blank).congr_print fun _ _ => by
      simp [String.append_assoc]
  cases hkind : body.kind with
  | block =>
    have hends : Scans reading EndsWord .operand .operator (body.doc capture)
        (body.tokens reading capture) :=
      (hbody h).weaken fun _ hrest => ⟨fun _ hret => by simp [hkind] at hret, hrest⟩
    refine scans_brace ?_ hends
    cases body <;> simp_all [kind]
    rfl
  | ret =>
    refine ((Scans.blank.andThen hsemicolon).congr_print fun _ _ => ?_).braced
    simp [String.append_assoc]
  | _ =>
    have hreturn : Scans reading Anything .operand .operand (.text " return ") [.word "return"] :=
      (Scans.blank.andThen Scans.returnBlank).congr_print fun _ _ => rfl
    refine ((hreturn.andThen hsemicolon).congr_print fun _ _ => ?_).braced
    simp [String.append_assoc]

theorem endsWord_lines (statements : List Expr) (width depth : Nat) {rest : List Char}
    (hrest : EndsWord rest) :
    EndsWord (((lines capture statements).print width depth).toList ++ rest) := by
  cases statements with
  | nil => simpa [lines] using hrest
  | cons e es =>
    intro c hc
    simp [lines] at hc
    rw [← hc]
    decide

theorem scans_lines {statements : List Expr}
    (hscanned : ∀ e ∈ statements, e.Scanned reading capture)
    (h : ∀ e ∈ statements, ∀ x ∈ e.nodes, reading.Legible capture x) (before : Mode) :
    ∃ after, Scans reading EndsWord before after (lines capture statements)
      (tokenLines reading capture statements) := by
  induction statements generalizing before with
  | nil => exact ⟨before, Scans.nil⟩
  | cons e es ih =>
    obtain ⟨middle, he⟩ := (hscanned e (by simp)).statement (h e (by simp))
    obtain ⟨after, hes⟩ := ih (fun d hd => hscanned d (by simp [hd]))
      (fun d hd => h d (by simp [hd])) middle
    have hline : Scans reading Anything before .operand .line reading.lineBreak := Scans.line
    have hall := (hline.andThen he).append hes
      fun width depth rest hrest => endsWord_lines es width depth hrest
    exact ⟨after, hall.congr (fun _ _ => by simp [lines, String.append_assoc])
      (by simp [tokenLines])⟩

theorem scans_captures {body : Expr} {parameters : List Expr}
    (h : reading.Legible capture (.lambda body parameters)) :
    Scans reading Anything .operand .operator (Doc.bracketed (.text capture))
      (Token.bracketed (reading.captures capture)) := by
  cases reading with
  | plain =>
    rcases h.2 rfl with rfl | rfl <;> exact Scans.captures_plain (by decide) (by decide)
  | rendered known =>
    rw [h.2]
    exact Scans.captures_rendered capture

theorem scans_elementType {elementType : TypeName} {dimensions : List Expr}
    (h : reading.Legible capture (.allocation elementType dimensions)) :
    Scans reading Scans.EndsElement .operand .operator (.text "new " ++ .text elementType.text)
      [.word "new", .word elementType.text] := by
  cases reading with
  | plain => exact Scans.elementType_plain h.1
  | rendered known =>
    have hproper := h.1
    simp only [isProper, isDelimited, Bool.and_eq_true] at hproper
    exact Scans.elementType_rendered (by simpa using hproper.1) known

theorem scanned (e : Expr) : e.Scanned reading capture := by
  induction e using Expr.induct with
  | assign target value htarget hvalue =>
    refine .intro fun h => ?_
    have htarget := htarget.operand h (by simp [operands, parts]) Binding.aboveConditional
    have hvalue := hvalue.operand h (by simp [operands, parts]) Binding.assignment
    have hsign : Scans reading Anything .operator .operand (.text " = ") [.punct "="] :=
      Scans.sign (.inl ⟨rfl, rfl⟩)
    simpa [doc, tokens] using
      (htarget.followedBy (c := ' ') hsign rfl rfl).andThen hvalue
  | binary op left right hleft hright =>
    refine .intro fun h => ?_
    have hleft := hleft.operand h (by simp [operands, parts]) op.leftDemand
    have hright := hright.operand h (by simp [operands, parts]) op.rightDemand
    refine ((hleft.followedBy (c := ' ') (Scans.binary op) rfl rfl).andThen
      hright).congr (fun _ _ => ?_) ?_
    · simp [doc, String.append_assoc]
    · simp [tokens]
  | prefixed op operand hoperand =>
    refine .intro fun h => ?_
    obtain ⟨c, hfirst, hc⟩ := Doc.edge_operand Binding.unary operand.binding
      (operand.edge (part_of_nodes h (by simp [parts])))
    have hoperand := hoperand.operand h (by simp [operands, parts]) Binding.unary
    simpa [doc, tokens] using Scans.prefixed op hoperand hfirst hc
  | suffixed op operand hoperand =>
    refine .intro fun h => ?_
    have hoperand := hoperand.operand h (by simp [operands, parts]) Binding.postfixed
    simpa [doc, tokens] using Scans.suffixed op hoperand
  | index base position hbase hposition =>
    refine .intro fun h => ?_
    have hbase := hbase.operand h (by simp [operands, parts]) Binding.postfixed
    have hposition := hposition.value h (by simp [operands, parts])
    simpa [doc, tokens] using
      hbase.followedBy (c := '[') hposition.bracketed rfl rfl
  | call callee arguments hcallee harguments =>
    refine .intro fun h => ?_
    have hcallee := hcallee.operand h (by simp [operands, parts]) Binding.postfixed
    have harguments := fun e he => (harguments e he).value h (by simp [operands, parts, he])
    simpa [doc, tokens] using
      hcallee.followedBy (c := '(') (Scans.listed harguments) rfl rfl
  | lambda body parameters hbody hparameters =>
    refine .intro fun h => ?_
    have hparameters := fun e he => (hparameters e he).value h (by simp [operands, he])
    have hbody := hbody.lambdaBody (part_of_nodes h (by simp [parts]))
    have hcaptures := scans_captures (self_of_nodes h)
    -- After the captures the reader stands behind an operand, as before the arguments of a call.
    refine (((hcaptures.andThen (Scans.listed hparameters)).andThen Scans.blank).andThen
      hbody).congr (fun _ _ => ?_) ?_
    · simp [doc]
    · simp [tokens]
  | access base op member hbase =>
    refine .intro fun h => ?_
    have hbase := hbase.operand h (by simp [operands, parts]) Binding.postfixed
    simpa [doc, tokens] using Scans.access op member hbase
  | allocation elementType dimensions hdimensions =>
    refine .intro fun h => ?_
    have hdimensions := fun e he => (hdimensions e he).value h (by simp [operands, parts, he])
    have helement := scans_elementType (self_of_nodes h)
    rw [doc, tokens, docs_eq_map, tokensOf_eq_map]
    -- The bracket that follows, round or square, ends the element type.
    cases dimensions with
    | nil =>
      exact helement.append Scans.emptyList
        fun _ _ _ _ => .inl (Doc.head?_print_append rfl _ _ _)
    | cons size sizes =>
      exact helement.append (Scans.dimensions hdimensions)
        fun _ _ _ _ => .inr (Doc.head?_print_append rfl _ _ _)
  | conditional condition thenBranch elseBranch hcondition hthen helse =>
    refine .intro fun h => ?_
    have hcondition := hcondition.operand h (by simp [operands, parts]) Binding.aboveConditional
    have hthen := hthen.operand h (by simp [operands, parts]) Binding.conditional
    have helse := helse.operand h (by simp [operands, parts]) Binding.conditional
    have hquestion : Scans reading Anything .operator .operand (.text " ? ") [.punct "?"] :=
      Scans.sign (.inr (.inl ⟨rfl, rfl⟩))
    have hcolon : Scans reading Anything .operator .operand (.text " : ") [.punct ":"] :=
      Scans.sign (.inr (.inr ⟨rfl, rfl⟩))
    refine ((((hcondition.followedBy (c := ' ') hquestion rfl rfl).andThen
      hthen).followedBy (c := ' ') hcolon rfl rfl).andThen
        helse).congr (fun _ _ => ?_) ?_
    · simp [doc]
    · simp [tokens]
  | tuple elements helements =>
    refine .intro fun h => ?_
    have helements := fun e he => (helements e he).value h (by simp [operands, parts, he])
    simpa [doc, tokens] using
      Scans.makeTuple.followedBy (c := '(') (Scans.listed helements) rfl rfl
  | ret value hvalue =>
    cases value with
    | none =>
      intro h
      -- Only a reader who knows the text waits for a value, and needs the semicolon.
      cases reading with
      | plain => exact Scans.bareReturn_plain.weaken fun _ hrest => hrest.2
      | rendered known => exact Scans.bareReturn.weaken fun _ hrest => hrest.1 (by simp) rfl
    | some value =>
      refine .intro fun h => ?_
      have hvalue := (hvalue value rfl).value h (by simp [operands, parts])
      simpa [doc, tokens] using Scans.returnBlank.andThen hvalue
  | block statements hstatements =>
    refine .intro fun h => ?_
    obtain ⟨after, hlines⟩ := scans_lines hstatements
      (fun e he => part_of_nodes h (by simp [parts, he])) .operand
    rw [doc, tokens]
    split
    · exact Scans.nil.braced
    · have hline : Scans reading Anything after .operand .line reading.lineBreak := Scans.line
      exact (hlines.nest.followedBy (c := '\n') hline rfl rfl).braced
  | literal text =>
    refine .intro fun h => ?_
    have hlegible := self_of_nodes h
    cases reading with
    | plain => simpa [doc, tokens] using Scans.plainLiteral hlegible.1
    | rendered known =>
      have hname : isName text = true := by
        simpa [isProper, isDelimited, operands, parts] using hlegible.1
      simpa [doc, tokens] using Scans.name hname

end Expr

/-! ## Whole trees -/

variable {tree : Tree}

theorem CompilationUnit.scans (statements : List Expr)
    (h : ∀ e ∈ statements, ∀ x ∈ e.nodes, reading.Legible capture x) :
    Scans reading Anything .operand .operand (CompilationUnit.doc capture ⟨statements⟩)
      (CompilationUnit.tokens reading capture ⟨statements⟩) := by
  induction statements with
  | nil => exact Scans.nil
  | cons e es ih =>
    obtain ⟨after, he⟩ := e.scanned.statement (h e (by simp))
    have hline : Scans reading Anything after .operand (.text "\n") reading.lineBreak :=
      Scans.lineBreak
    exact (he.followedBy (c := '\n') hline rfl rfl).andThen (ih fun d hd => h d (by simp [hd]))

/-- A tree is read as its tokens, if it is not a return of which a reader waits for the rest. -/
theorem Tree.scan_render (h : ∀ x ∈ tree.nodes, reading.Legible capture x)
    (hret : reading ≠ .plain → tree.kind ≠ .ret) (renderer : Renderer)
    (hcapture : renderer.style.lambdaCapture = capture) :
    scan reading .operand (renderer.render tree).1.toList = tree.tokens reading capture := by
  rw [Renderer.render_eq, hcapture]
  have hexpr (e : Expr) (he : ∀ x ∈ e.nodes, reading.Legible capture x)
      (hkind : reading ≠ .plain → e.kind ≠ .ret) (width depth : Nat) :
      scan reading .operand ((e.doc capture).print width depth).toList =
        e.tokens reading capture := by
    have hread := e.scanned he width depth []
      ⟨fun hreading hkind' => absurd hkind' (hkind hreading), fun _ hc => by cases hc⟩
    simpa using hread
  cases tree with
  | unit u =>
    have hnodes : ∀ e ∈ u.statements, ∀ x ∈ e.nodes, reading.Legible capture x :=
      fun e he x hx => h x (List.mem_flatMap.mpr ⟨e, he, hx⟩)
    have hread := CompilationUnit.scans u.statements hnodes renderer.style.indentWidth
      renderer.depth [] trivial
    simpa [doc, tokens] using hread
  | statement e => exact hexpr e (by simpa [nodes, tops] using h) hret _ _
  | expression e => exact hexpr e (by simpa [nodes, tops] using h) hret _ _

/-- Rendering glues no tokens together: the tokens of the text are those of the tree, in order. -/
theorem Tree.lex_render (tree : Tree) (renderer : Renderer)
    (hcapture : renderer.style.lambdaCapture = "&" ∨ renderer.style.lambdaCapture = "=")
    (htexts : ∀ x ∈ tree.nodes, x.isPlain = true) :
    lex (renderer.render tree).1.toList = tree.tokens .plain renderer.style.lambdaCapture := by
  rw [← scan_plain .operand]
  have hlegible : ∀ x ∈ tree.nodes, Reading.plain.Legible renderer.style.lambdaCapture x :=
    fun x hx => ⟨htexts x hx, fun _ => hcapture⟩
  exact scan_render hlegible (fun h => absurd rfl h) renderer rfl

def signedChain : Tree :=
  .expression <| .prefixed .negate <|
    .access (.suffixed .decrement (.suffixed .increment (.literal "-x"))) .pointer ⟨"y", by decide⟩

/-- The text `- -x++--->y` falls into seven tokens. -/
theorem lex_render_signedChain :
    (∀ x ∈ signedChain.nodes, x.isPlain = true) ∧
      lex (Renderer.render {} signedChain).1.toList =
        [.punct "-", .punct "-", .word "x", .punct "++", .punct "--", .punct "->", .word "y"] := by
  have htexts : ∀ x ∈ signedChain.nodes, x.isPlain = true := by decide
  refine ⟨htexts, ?_⟩
  rw [Tree.lex_render signedChain {} (.inl rfl) htexts]
  decide +kernel

end CppTree
