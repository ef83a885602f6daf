import CppTree.Proofs.Lexing.Tokens

/-!
# Reading a document piece by piece

`Scans` says which tokens a reader gets from a document and where the reader then stands, whatever
text follows it, as long as that text satisfies a condition.  Documents that follow each other are
read one after the other, so the tokens of a tree are found construct by construct.
-/

namespace CppTree

theorem Doc.head?_print_append {doc : Doc} {c : Char} (h : doc.first? = some c) (width depth : Nat)
    (rest : List Char) : ((doc.print width depth).toList ++ rest).head? = some c := by
  rw [Doc.first?_eq_head? width depth] at h
  rw [List.head?_append, h, Option.some_or]

def Anything (_ : List Char) : Prop := True

/-- Whether a text starts with a character of a kind, if it is not empty. -/
def Starts (P : Char → Prop) (rest : List Char) : Prop :=
  ∀ c ∈ rest.head?, P c

/-- Read from the mode `before`, the document is these tokens, and the reader then stands in the
mode `after`; `follow` holds of the text behind it. -/
def Scans (reading : Reading) (follow : List Char → Prop) (before after : Mode) (doc : Doc)
    (ts : List Token) : Prop :=
  ∀ width depth rest, follow rest →
    scan reading before ((doc.print width depth).toList ++ rest) = ts ++ scan reading after rest

namespace Scans

variable {reading : Reading} {follow follow' : List Char → Prop} {before middle after : Mode}
  {doc doc' : Doc} {ts ts' : List Token}

theorem weaken (h : Scans reading follow before after doc ts)
    (hfollow : ∀ rest, follow' rest → follow rest) : Scans reading follow' before after doc ts :=
  fun width depth rest hrest => h width depth rest (hfollow rest hrest)

theorem congr_print (h : Scans reading follow before after doc ts)
    (hprint : ∀ width depth, doc'.print width depth = doc.print width depth) :
    Scans reading follow before after doc' ts := by
  intro width depth rest hrest
  rw [hprint, h width depth rest hrest]

theorem congr (h : Scans reading follow before after doc ts)
    (hprint : ∀ width depth, doc'.print width depth = doc.print width depth) (hts : ts' = ts) :
    Scans reading follow before after doc' ts' :=
  hts ▸ h.congr_print hprint

/-! ## One document after another -/

theorem append (h : Scans reading follow before middle doc ts)
    (h' : Scans reading follow' middle after doc' ts')
    (hfollow : ∀ width depth rest, follow' rest →
      follow ((doc'.print width depth).toList ++ rest)) :
    Scans reading follow' before after (doc ++ doc') (ts ++ ts') := by
  intro width depth rest hrest
  rw [Doc.print_append, String.toList_append, List.append_assoc,
    h width depth _ (hfollow width depth rest hrest), h' width depth rest hrest, List.append_assoc]

theorem andThen (h : Scans reading Anything before middle doc ts)
    (h' : Scans reading follow middle after doc' ts') :
    Scans reading follow before after (doc ++ doc') (ts ++ ts') :=
  h.append h' fun _ _ _ _ => trivial

theorem followedBy {P : Char → Prop} (h : Scans reading (Starts P) before middle doc ts)
    (h' : Scans reading follow middle after doc' ts') {c : Char} (hfirst : doc'.first? = some c)
    (hc : P c) : Scans reading follow before after (doc ++ doc') (ts ++ ts') := by
  refine h.append h' fun width depth rest _ b hb => ?_
  rw [Doc.head?_print_append hfirst, Option.mem_some_iff] at hb
  rwa [← hb]

/-! ## Blanks, lines and punctuators -/

theorem nil : Scans reading follow before before .nil [] :=
  fun _ _ _ _ => by simp

theorem blank : Scans reading follow before before (.text " ") [] :=
  fun _ _ _ _ => by simp

theorem line : Scans reading follow before .operand .line reading.lineBreak := by
  intro width depth rest _
  rw [Doc.toList_print_line, List.cons_append, scan_newline, scan_blanks]

theorem lineBreak : Scans reading follow before .operand (.text "\n") reading.lineBreak := by
  intro width depth rest _
  have hbreak : "\n".toList = ['\n'] := by decide
  rw [Doc.print_text, hbreak, List.singleton_append, scan_newline]

theorem nest (h : Scans reading follow before after doc ts) :
    Scans reading follow before after (.nest doc) ts :=
  fun width depth => h width (depth + 1)

theorem punctBefore {P : Char → Prop} {p : String} (hp : p.toList ∈ punctuators)
    (hP : ∀ c, P c → lengthens p.toList c = false)
    (hopen : reading ≠ .plain → before = .operand → p.toList.head? ≠ some '[') :
    Scans reading (Starts P) before (before.after p) (.text p) [.punct p] :=
  fun _ _ _ hrest => scan_punct reading before hp (fun c hc => hP c (hrest c hc)) hopen

/-- A punctuator with which no longer one starts. -/
theorem punct {p : String} (hp : p.toList ∈ punctuators)
    (hlast : ∀ q ∈ punctuators, p.toList.isPrefixOf q → q.length ≤ p.toList.length)
    (hopen : reading ≠ .plain → before = .operand → p.toList.head? ≠ some '[') :
    Scans reading follow before (before.after p) (.text p) [.punct p] := by
  -- Nothing lengthens `p`, so nothing is asked of the text behind it.
  have hnever : ∀ c, True → lengthens p.toList c = false := by
    intro c _
    by_contra h
    have hlengthens : lengthens p.toList c = true := by simpa using h
    obtain ⟨q, hq, hprefix⟩ := List.any_eq_true.mp hlengthens
    have hlonger := (List.isPrefixOf_iff_prefix.mp hprefix).length_le
    have hprefix' : p.toList <+: q :=
      (List.prefix_append _ _).trans (List.isPrefixOf_iff_prefix.mp hprefix)
    have hlength := hlast q hq (List.isPrefixOf_iff_prefix.mpr hprefix')
    rw [List.length_append, List.length_singleton] at hlonger
    omega
  exact (punctBefore hp hnever hopen).weaken fun _ _ _ _ => trivial

theorem spaced {p : String} (hp : p.toList ∈ punctuators) (hafter : before.after p = .operand)
    (hopen : p.toList.head? ≠ some '[') :
    Scans reading follow before .operand (.text " " ++ .text p ++ .text " ") [.punct p] := by
  have hblank : Scans reading Anything before before (.text " ") [] := blank
  have hpunct : Scans reading (Starts (· = ' ')) before (before.after p) (.text p) [.punct p] :=
    punctBefore hp (fun c hc => lengthens_of_isBlank _ (by rw [hc]; rfl)) fun _ _ => hopen
  rw [hafter] at hpunct
  exact (hblank.andThen hpunct).followedBy (c := ' ') blank (by decide) rfl

theorem binary (op : BinaryOp) :
    Scans reading follow .operator .operand (.text " " ++ .text op.spelling ++ .text " ")
      [.punct op.spelling] :=
  spaced (by cases op <;> decide) (by cases op <;> decide) (by cases op <;> decide)

theorem sign {text p : String}
    (hp : text = " = " ∧ p = "=" ∨ text = " ? " ∧ p = "?" ∨ text = " : " ∧ p = ":") :
    Scans reading follow .operator .operand (.text text) [.punct p] := by
  have hspaced (p : String) (hp : p ∈ ["=", "?", ":"]) :
      Scans reading follow .operator .operand (.text " " ++ .text p ++ .text " ") [.punct p] := by
    simp only [List.mem_cons, List.not_mem_nil, or_false] at hp
    rcases hp with rfl | rfl | rfl <;> exact spaced (by decide) (by decide) (by decide)
  rcases hp with ⟨rfl, rfl⟩ | ⟨rfl, rfl⟩ | ⟨rfl, rfl⟩
  · exact (hspaced "=" (by decide)).congr_print fun _ _ => rfl
  · exact (hspaced "?" (by decide)).congr_print fun _ _ => rfl
  · exact (hspaced ":" (by decide)).congr_print fun _ _ => rfl

/-! ## Brackets and lists -/

theorem parenthesized (h : Scans reading EndsWord .operand .operator doc ts) :
    Scans reading follow before .operator doc.parenthesized (Token.parenthesized ts) := by
  have hopen : Scans reading Anything before .operand (.text "(") [.punct "("] :=
    punct (by decide) (by decide) fun _ _ => by decide
  have hclose : Scans reading follow .operator .operator (.text ")") [.punct ")"] :=
    punct (by decide) (by decide) fun _ _ => by decide
  exact (hopen.andThen h).followedBy (c := ')') hclose (by decide) (by decide)

theorem emptyList :
    Scans reading follow before .operator (.parenthesized .nil) (Token.parenthesized []) := by
  have hopen : Scans reading Anything before .operand (.text "(") [.punct "("] :=
    punct (by decide) (by decide) fun _ _ => by decide
  have hclose : Scans reading follow .operand .operator (.text ")") [.punct ")"] :=
    punct (by decide) (by decide) fun _ _ => by decide
  exact (hopen.andThen nil).andThen hclose

theorem bracketed (h : Scans reading EndsWord .operand .operator doc ts) :
    Scans reading follow .operator .operator doc.bracketed (Token.bracketed ts) := by
  have hopen : Scans reading Anything .operator .operand (.text "[") [.punct "["] :=
    punct (by decide) (by decide) fun _ hmode => by cases hmode
  have hclose : Scans reading follow .operator .operator (.text "]") [.punct "]"] :=
    punct (by decide) (by decide) fun _ _ => by decide
  exact (hopen.andThen h).followedBy (c := ']') hclose (by decide) (by decide)

theorem braced (h : Scans reading Anything .operand .operand doc ts) :
    Scans reading follow before .operator doc.braced (Token.braced ts) := by
  have hopen : Scans reading Anything before .operand (String.singleton '{') [.openBrace] := by
    rw [Token.openBrace_eq]
    exact punct (by decide) (by decide) fun _ _ => by decide
  have hclose : Scans reading follow .operand .operator (String.singleton '}') [.closeBrace] := by
    rw [Token.closeBrace_eq]
    exact punct (by decide) (by decide) fun _ _ => by decide
  exact (hopen.andThen h).andThen hclose

theorem semicolon : Scans reading follow before .operand (.text ";") [.punct ";"] :=
  punct (by decide) (by decide) fun _ _ => by decide

theorem operand (demand binding : Nat) (h : Scans reading EndsWord .operand .operator doc ts) :
    Scans reading EndsWord .operand .operator (.operand demand binding doc)
      (Token.operand demand binding ts) := by
  unfold Doc.operand Token.operand
  split
  · exact h.parenthesized
  · exact h

section
variable {α : Type} {f : α → Doc} {g : α → List Token} {es : List α}

theorem joined (first : α)
    (h : ∀ e ∈ first :: es, Scans reading EndsWord .operand .operator (f e) (g e)) :
    Scans reading EndsWord .operand .operator (.joined ", " ((first :: es).map f))
      (Token.commaSeparated ((first :: es).map g)) := by
  induction es generalizing first with
  | nil => simpa [Doc.joined, Token.commaSeparated] using h first (by simp)
  | cons second rest ih =>
    have hcomma : Scans reading Anything .operator .operand (.text ", ") [.punct ","] := by
      have hpunct : Scans reading Anything .operator .operand (.text ",") [.punct ","] :=
        punct (by decide) (by decide) fun _ _ => by decide
      exact (hpunct.andThen blank).congr_print fun _ _ => rfl
    have hrest := ih second fun e he => h e (List.mem_cons_of_mem _ he)
    have hall := ((h first (by simp)).followedBy (c := ',') hcomma (by decide)
      (by decide)).andThen hrest
    simpa [Doc.joined, Token.commaSeparated] using hall

theorem listed (h : ∀ e ∈ es, Scans reading EndsWord .operand .operator (f e) (g e)) :
    Scans reading follow before .operator (Doc.parenthesized (.joined ", " (es.map f)))
      (Token.parenthesized (Token.commaSeparated (es.map g))) := by
  -- In an empty list the reader still expects an operand when the closing bracket comes.
  cases es with
  | nil => exact emptyList
  | cons first rest => exact (joined first h).parenthesized

theorem dimensions (h : ∀ e ∈ es, Scans reading EndsWord .operand .operator (f e) (g e)) :
    Scans reading follow .operator .operator
      ((es.map f).foldr (fun size rest => size.bracketed ++ rest) .nil)
      ((es.map g).flatMap Token.bracketed) := by
  induction es with
  | nil => exact nil
  | cons e es ih =>
    exact (h e (by simp)).bracketed.andThen (ih fun e' he' => h e' (List.mem_cons_of_mem _ he'))

end

end Scans

end CppTree
