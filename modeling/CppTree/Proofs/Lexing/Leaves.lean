import CppTree.Proofs.Lexing.Pieces
import CppTree.Proofs.Names

/-!
# Reading words, types, captures and prefix operators

The pieces of a rendering that depend on the texts in the tree.  The blank after a prefix operator is
needed exactly where the first character of the operand would lengthen it: `lengthens_prefixOp`.
-/

namespace CppTree

/-! ## First characters -/

/-- Whether an expression can start with this character. -/
def isEdge (c : Char) : Bool :=
  isNameStart c || ['-', '+', '!', '~', '*', '&', '(', '[', '{'].contains c

/-- Of all characters with which an operand can start, only the one in which a prefix operator ends
lengthens the operator. -/
theorem lengthens_prefixOp (op : PrefixOp) {c : Char} (hc : isEdge c = true)
    (hlast : op.spelling.toList.getLast? ≠ some c) : lengthens op.spelling.toList c = false := by
  rcases Bool.or_eq_true _ _ ▸ hc with hname | hmem
  · exact lengthens_of_isNameChar _ (isNameChar_of_isNameStart hname)
  · have hall : (['-', '+', '!', '~', '*', '&', '(', '[', '{'].all fun c =>
        op.spelling.toList.getLast? == some c || !lengthens op.spelling.toList c) = true := by
      cases op <;> decide
    have hc := List.all_eq_true.mp hall c (by simpa using hmem)
    simpa [hlast] using hc

theorem first?_of_isIdentifier {w : String} (hw : isIdentifier w.toList = true) :
    ∃ c, (Doc.text w).first? = some c ∧ isNameStart c = true := by
  rw [Doc.first?, String.front?_eq]
  cases hchars : w.toList with
  | nil => simp [hchars, isIdentifier] at hw
  | cons c cs =>
    rw [hchars, isIdentifier, Bool.and_eq_true] at hw
    exact ⟨c, rfl, hw.1⟩

namespace Scans

variable {reading : Reading} {follow : List Char → Prop} {before after : Mode} {doc : Doc}
  {ts : List Token}

/-! ## Words -/

theorem word {w : String} (hw : isIdentifier w.toList = true)
    (hnew : reading ≠ .plain → before = .operand → w ≠ "new") :
    Scans reading EndsWord before (before.afterWord w) (.text w) [.word w] :=
  fun _ _ _ hrest => scan_word reading before hw hrest hnew

theorem member (member : Identifier) :
    Scans reading EndsWord .operator .operator (.text member.text) [.word member.text] :=
  word member.wellSpelled fun _ hmode => by cases hmode

theorem suffixed (op : SuffixOp) (h : Scans reading EndsWord before .operator doc ts) :
    Scans reading follow before .operator (doc ++ .text op.spelling)
      (ts ++ [.punct op.spelling]) := by
  -- No punctuator is longer than either of the two, so nothing is asked of what follows.
  cases op with
  | increment =>
    exact h.followedBy (c := '+') (punct (p := "++") (by decide) (by decide)
      fun _ hmode => by cases hmode) (by decide) (by decide)
  | decrement =>
    exact h.followedBy (c := '-') (punct (p := "--") (by decide) (by decide)
      fun _ hmode => by cases hmode) (by decide) (by decide)

theorem access (op : AccessOp) (name : Identifier)
    (h : Scans reading EndsWord before .operator doc ts) :
    Scans reading EndsWord before .operator (doc ++ .text op.spelling ++ .text name.text)
      (ts ++ [.punct op.spelling, .word name.text]) := by
  have hop : Scans reading (Starts (isNameChar · = true)) .operator
      (Mode.operator.after op.spelling) (.text op.spelling) [.punct op.spelling] :=
    punctBefore (by cases op <;> decide) (fun c hc => lengthens_of_isNameChar _ hc)
      fun _ hmode => by cases hmode
  have hafter : Mode.operator.after op.spelling = .operator := by cases op <;> decide
  rw [hafter] at hop
  -- The operator ends the word before it, and the member lengthens no operator.
  obtain ⟨c, hfirst, hc⟩ := first?_of_isIdentifier name.wellSpelled
  obtain ⟨b, hb, hbname⟩ : ∃ b, (Doc.text op.spelling).first? = some b ∧ isNameChar b = false := by
    cases op
    exacts [⟨'.', by decide, by decide⟩, ⟨'-', by decide, by decide⟩, ⟨':', by decide, by decide⟩]
  simpa using (h.followedBy hop hb hbname).followedBy (member name) hfirst
    (isNameChar_of_isNameStart hc)

theorem makeTuple :
    Scans reading EndsWord .operand .operator (.text "std::make_tuple")
      [.word "std", .punct "::", .word "make_tuple"] := by
  have hstd : Scans reading EndsWord .operand .operator (.text "std") [.word "std"] :=
    word (by decide) fun _ _ => by decide
  exact (access .scope ⟨"make_tuple", by decide⟩ hstd).congr_print fun _ _ => rfl

theorem returnWord : Scans reading EndsWord .operand .operand (.text "return") [.word "return"] :=
  word (by decide) fun _ _ => by decide

theorem returnBlank :
    Scans reading follow .operand .operand (.text "return ") [.word "return"] := by
  have hblank : Scans reading follow .operand .operand (.text " ") [] := blank
  exact (returnWord.followedBy (c := ' ') hblank (by decide) (by decide)).congr_print
    fun _ _ => rfl

/-! ## The plain reading -/

theorem plain_mode {before' after' : Mode} (h : Scans .plain follow before after doc ts) :
    Scans .plain follow before' after' doc ts := by
  intro width depth rest hrest
  rw [scan_plain, scan_plain, ← scan_plain before, ← scan_plain after, h width depth rest hrest]

theorem lex_identifier {w : String} (hw : isIdentifier w.toList = true) :
    lex w.toList = [.word w] := by
  have hends : EndsWord [] := fun _ hc => by cases hc
  have h := lex_word hw hends
  rwa [List.append_nil, lex_nil] at h

theorem lex_sign {c : Char} (hc : c ∈ ['-', '+', '!', '~', '*', '&']) {w : List Char}
    (hw : isIdentifier w = true) (rest : List Char) :
    lex (c :: (w ++ rest)) = .punct (String.singleton c) :: lex (w ++ rest) := by
  have hp : (String.singleton c).toList ∈ punctuators := by
    have hall : (['-', '+', '!', '~', '*', '&'].all fun c => punctuators.contains [c]) = true := by
      decide
    rw [String.toList_singleton]
    exact List.contains_iff_mem.mp (List.all_eq_true.mp hall c hc)
  have hrest : ∀ b ∈ (w ++ rest).head?, lengthens (String.singleton c).toList b = false := by
    intro b hb
    cases w with
    | nil => simp [isIdentifier] at hw
    | cons first others =>
      rw [isIdentifier, Bool.and_eq_true] at hw
      cases hb
      exact lengthens_of_isNameChar _ (isNameChar_of_isNameStart hw.1)
  have h := lex_punct hp hrest
  rwa [String.toList_singleton] at h

theorem lex_signedIdentifier {cs rest : List Char} (hcs : isSignedIdentifier cs = true)
    (hrest : EndsWord rest) : lex (cs ++ rest) = lex cs ++ lex rest := by
  have hword : ∀ w : List Char, isIdentifier w = true → lex (w ++ rest) = lex w ++ lex rest := by
    intro w hw
    have hw' : isIdentifier (String.ofList w).toList = true := by rwa [String.toList_ofList]
    have happend := lex_word hw' hrest
    have halone := lex_identifier hw'
    rw [String.toList_ofList] at happend halone
    rw [happend, halone, List.singleton_append]
  cases cs with
  | nil => simp [isSignedIdentifier] at hcs
  | cons c cs =>
    simp only [isSignedIdentifier, Bool.or_eq_true, Bool.and_eq_true, List.contains_iff_mem] at hcs
    rcases hcs with hw | ⟨hc, hw⟩
    · exact hword _ hw
    · have halone := lex_sign hc hw []
      rw [List.append_nil] at halone
      rw [List.cons_append, lex_sign hc hw, hword _ hw, halone, List.cons_append]

theorem plainLiteral {text : String} (htext : isSignedIdentifier text.toList = true) :
    Scans .plain EndsWord before after (.text text) (lex text.toList) := by
  intro _ _ rest hrest
  rw [scan_plain, scan_plain]
  exact lex_signedIdentifier htext hrest

theorem name {text : String} (htext : isName text = true) :
    Scans reading EndsWord .operand .operator (.text text) (lex text.toList) := by
  simp only [isName, Bool.and_eq_true, bne_iff_ne] at htext
  have hafter : Mode.operand.afterWord text = .operator := by simp [Mode.afterWord, htext.2]
  have h : Scans reading EndsWord .operand (Mode.operand.afterWord text) (.text text)
      [.word text] := word htext.1.1 fun _ _ => htext.1.2
  rwa [hafter, ← lex_identifier htext.1.1] at h

theorem bareReturn_plain :
    Scans .plain EndsWord .operand .operator (.text "return") [.word "return"] :=
  plain_mode returnWord

theorem bareReturn :
    Scans reading (fun rest => rest.head? = some ';') .operand .operator (.text "return")
      [.word "return"] := by
  intro width depth rest hrest
  have hend : EndsWord rest := by
    intro c hc
    rw [hrest] at hc
    cases hc
    decide
  -- A semicolon is read alike in both modes, so it does not matter that a value could follow.
  obtain ⟨rest, rfl⟩ : ∃ after, rest = ';' :: after := List.head?_eq_some_iff.mp hrest
  have hsemicolon (mode : Mode) :
      scan reading mode (';' :: rest) = .punct ";" :: scan reading .operand rest := by
    have h : Scans reading Anything mode .operand (.text ";") [.punct ";"] := semicolon
    simpa using h width depth rest trivial
  rw [returnWord width depth _ hend, hsemicolon .operand, hsemicolon .operator]

/-! ## Element types and captures -/

/-- Whether the element type before this text ends there. -/
def EndsElement (rest : List Char) : Prop :=
  rest.head? = some '(' ∨ rest.head? = some '['

/-- A plain reader takes a single identifier for an element type. -/
theorem elementType_plain {T : TypeName} (hT : isIdentifier T.text.toList = true) :
    Scans .plain EndsElement .operand .operator (.text "new " ++ .text T.text)
      [.word "new", .word T.text] := by
  have hkeyword : Scans .plain EndsWord .operand (Mode.operand.afterWord "new") (.text "new")
      [.word "new"] := word (by decide) fun h => absurd rfl h
  have hnew : Scans .plain Anything .operand .operand (.text "new ") [.word "new"] :=
    (hkeyword.followedBy (c := ' ') blank (by decide) (by decide)).plain_mode.congr_print
      fun _ _ => rfl
  have hname : Scans .plain EndsWord .operand (Mode.operand.afterWord T.text) (.text T.text)
      [.word T.text] := word hT fun h => absurd rfl h
  have hword : Scans .plain EndsWord .operand .operator (.text T.text) [.word T.text] :=
    hname.plain_mode
  refine hnew.andThen (hword.weaken fun rest hrest c hc => ?_)
  rcases hrest with hrest | hrest <;> rw [hrest] at hc <;> cases hc <;> decide

/-- A reader who knows the text takes everything before the brackets for the element type. -/
theorem elementType_rendered {T : TypeName} (hT : '[' ∉ T.text.toList) (capture : String) :
    Scans (.rendered capture) EndsElement .operand .operator (.text "new " ++ .text T.text)
      [.word "new", .word T.text] := by
  intro width depth rest hrest
  -- The bracket behind the element type is the first character that does not belong to it.
  obtain ⟨c, rest, rfl, hbracket⟩ :
      ∃ c after, rest = c :: after ∧ isElementChar c = false := by
    rcases hrest with hrest | hrest <;> obtain ⟨after, rfl⟩ := List.head?_eq_some_iff.mp hrest
    · exact ⟨'(', after, rfl, by decide⟩
    · exact ⟨'[', after, rfl, by decide⟩
  have helement : ∀ b ∈ T.text.toList, isElementChar b = true := by
    intro b hb
    have hround : b ≠ '(' := by
      rintro rfl
      exact absurd (isTypeChar_of_isTypeName T.wellSpelled hb) (by decide)
    have hsquare : b ≠ '[' := by
      rintro rfl
      exact hT hb
    simp [isElementChar, hround, hsquare]
  have htext : ((Doc.text "new " ++ Doc.text T.text).print width depth).toList ++ c :: rest =
      'n' :: 'e' :: 'w' :: ' ' :: (T.text.toList ++ c :: rest) := by simp
  rw [htext, scan, if_neg (by decide), if_neg (by decide), if_pos (by decide)]
  simp [show isNameChar 'e' = true by decide, show isNameChar 'w' = true by decide,
    show isNameChar ' ' = false by decide, List.takeWhile_append_of_pos helement,
    List.dropWhile_append_of_pos helement, hbracket]

theorem captures_plain {capture : String} (hcapture : capture.toList ∈ punctuators)
    (hend : lengthens capture.toList ']' = false) :
    Scans .plain follow .operand .operator (Doc.bracketed (.text capture))
      (Token.bracketed (lex capture.toList)) := by
  have hnothing : ∀ c ∈ ([] : List Char).head?, lengthens capture.toList c = false :=
    fun _ hc => by cases hc
  have hlex := lex_punct hcapture hnothing
  rw [List.append_nil, lex_nil] at hlex
  have hopen : Scans .plain Anything .operand .operand (.text "[") [.punct "["] :=
    punct (by decide) (by decide) fun h => absurd rfl h
  have hmiddle : Scans .plain (Starts (· = ']')) .operand _ (.text capture) [.punct capture] :=
    punctBefore hcapture (fun _ hc => hc ▸ hend) fun h => absurd rfl h
  have hclose : Scans .plain follow .operator .operator (.text "]") [.punct "]"] :=
    punct (by decide) (by decide) fun h => absurd rfl h
  rw [hlex]
  exact (hopen.andThen hmiddle.plain_mode).followedBy (c := ']') hclose (by decide) rfl

theorem captures_rendered (capture : String) :
    Scans (.rendered capture) follow .operand .operator (Doc.bracketed (.text capture))
      (Token.bracketed []) := by
  have hclose : Scans (.rendered capture) follow .operator .operator (.text "]") [.punct "]"] :=
    punct (by decide) (by decide) fun _ _ => by decide
  intro width depth rest hrest
  have htext : ((Doc.bracketed (.text capture)).print width depth).toList ++ rest =
      '[' :: (capture.toList ++ (((Doc.text "]").print width depth).toList ++ rest)) := by
    simp [Doc.bracketed]
  -- As many characters are dropped as the capture list has, whatever they are.
  rw [htext, scan, if_neg (by decide), if_neg (by decide), if_neg (by decide),
    if_pos ⟨by simp, rfl, rfl⟩, Reading.captureLength, List.drop_left,
    hclose width depth rest hrest]
  rfl

/-! ## Prefix operators -/

/-- A prefix operator and its operand are read as they are written, with or without a blank. -/
theorem prefixed (op : PrefixOp) (h : Scans reading EndsWord .operand .operator doc ts) {c : Char}
    (hfirst : doc.first? = some c) (hc : isEdge c = true) :
    Scans reading EndsWord .operand .operator (.prefixed op.spelling doc)
      (.punct op.spelling :: ts) := by
  have hop : Scans reading (Starts (lengthens op.spelling.toList · = false)) .operand .operand
      (.text op.spelling) [.punct op.spelling] := by
    have hafter : Mode.operand.after op.spelling = .operand := by cases op <;> decide
    have hpiece : Scans reading (Starts (lengthens op.spelling.toList · = false)) .operand
        (Mode.operand.after op.spelling) (.text op.spelling) [.punct op.spelling] :=
      punctBefore (by cases op <;> decide) (fun _ hb => hb) fun _ _ => by cases op <;> decide
    rwa [hafter] at hpiece
  -- With a blank nothing can lengthen the operator; without one the first character of the operand
  -- is not the last one of the operator.
  unfold Doc.prefixed
  split
  · have hblank : Scans reading Anything .operand .operand (.text " ") [] := blank
    have hspaced := hop.followedBy (c := ' ') hblank (by decide)
      (lengthens_of_isBlank _ (by decide))
    exact hspaced.andThen h
  · rename_i hlast
    rw [hfirst] at hlast
    exact hop.followedBy h hfirst (lengthens_prefixOp op hc hlast)

end Scans

end CppTree
