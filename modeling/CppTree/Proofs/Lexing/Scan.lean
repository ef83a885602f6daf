import CppTree.Proofs.Lexing.Token

/-!
# Reading rendered text

`scan` reads a text that may be known to be rendered with a given capture list.  With that knowledge
it takes an element type as one token, skips the captures and keeps the line breaks, so that nothing
of the tree is lost; without it, it is `lex`.  Main statements: `scan_plain`, and one law for each
piece of text that a rendering is made of.
-/

namespace CppTree

/-- What is known of a text: nothing, or the capture list with which it was rendered. -/
inductive Reading where
  | plain
  | rendered (capture : String)
deriving DecidableEq

/-- Where a reader stands: before an operand, or behind one. -/
inductive Mode where
  | operand
  | operator
deriving DecidableEq

/-- Where a reader stands after a punctuator.  Increments and decrements stand on both sides. -/
def Mode.after (mode : Mode) (p : String) : Mode :=
  if p = "++" ∨ p = "--" then mode
  else if p ∈ [")", "]", String.singleton '}', ".", "->", "::"] then .operator
  else .operand

/-- Where a reader stands after a word.  What is returned is still to come. -/
def Mode.afterWord (mode : Mode) (word : String) : Mode :=
  if mode = .operand ∧ word = "return" then .operand else .operator

def Token.lineBreak : Token := .punct "\n"

def Reading.lineBreak : Reading → List Token
  | .plain => []
  | .rendered _ => [.lineBreak]

/-- Whether a character belongs to an element type without brackets of its own. -/
def isElementChar (c : Char) : Bool :=
  c != '(' && c != '['

/-- How many characters a reader skips after the bracket that opens a lambda. -/
def Reading.captureLength : Reading → Nat
  | .plain => 0
  | .rendered capture => capture.toList.length

/-- The tokens of a text for a reader who stands before or behind an operand. -/
def scan (reading : Reading) : Mode → List Char → List Token
  | _, [] => []
  | mode, c :: cs =>
    if c = '\n' then reading.lineBreak ++ scan reading .operand cs
    else if c = ' ' then scan reading mode cs
    else if isNameStart c then
      let word := String.ofList (c :: cs.takeWhile isNameChar)
      let rest := cs.dropWhile isNameChar
      -- An element type may hold blanks and commas; it ends at the first bracket.
      if reading ≠ .plain ∧ mode = .operand ∧ word = "new" then
        .word word :: .word (String.ofList (rest.tail.takeWhile isElementChar)) ::
          scan reading .operator (rest.tail.dropWhile isElementChar)
      else .word word :: scan reading (mode.afterWord word) rest
    -- Where an operand is expected, a square bracket opens a lambda.
    else if reading ≠ .plain ∧ mode = .operand ∧ c = '[' then
      .punct "[" :: scan reading .operator (cs.drop reading.captureLength)
    else
      match munch (c :: cs) with
      | some p =>
        .punct (String.ofList p) ::
          scan reading (mode.after (String.ofList p)) (cs.drop (p.length - 1))
      | none => .stray c :: scan reading mode cs
termination_by _ cs => cs.length
decreasing_by
  all_goals
    have hname := (List.dropWhile_suffix (l := cs) isNameChar).length_le
    have helement :=
      (List.dropWhile_suffix (l := (cs.dropWhile isNameChar).tail) isElementChar).length_le
    simp only [List.length_cons, List.length_drop, List.length_tail] at *
    omega

/-! ## The plain reading -/

/-- Without knowledge of the text, reading it is reading its tokens. -/
theorem scan_plain (mode : Mode) (cs : List Char) : scan .plain mode cs = lex cs := by
  -- The mode only decides between branches that a plain reader never takes.
  fun_induction lex cs generalizing mode with
  | case1 => rw [scan]
  | case2 c cs hc ih =>
    rcases (by simpa [isBlank, or_iff_not_imp_left] using hc : c = ' ' ∨ c = '\n') with rfl | rfl <;>
      simp [scan, Reading.lineBreak, ih]
  | case3 c cs hc hname ih =>
    simp only [isBlank, Bool.or_eq_true, beq_iff_eq, not_or] at hc
    simp [scan, hc, hname, ih]
  | case4 c cs hc hname p hp ih =>
    simp only [isBlank, Bool.or_eq_true, beq_iff_eq, not_or] at hc
    simp [scan, hc, hname, hp, ih]
  | case5 c cs hc hname hp ih =>
    simp only [isBlank, Bool.or_eq_true, beq_iff_eq, not_or] at hc
    simp [scan, hc, hname, hp, ih]

/-! ## Blanks, words and punctuators -/

section
variable (reading : Reading) (mode : Mode)

@[simp]
theorem scan_nil : scan reading mode [] = [] := by
  rw [scan]

@[simp]
theorem scan_blank (cs : List Char) : scan reading mode (' ' :: cs) = scan reading mode cs := by
  rw [scan]; simp

@[simp]
theorem scan_newline (cs : List Char) :
    scan reading mode ('\n' :: cs) = reading.lineBreak ++ scan reading .operand cs := by
  rw [scan, if_pos rfl]

theorem scan_blanks (n : Nat) (cs : List Char) :
    scan reading mode (List.replicate n ' ' ++ cs) = scan reading mode cs := by
  induction n with
  | zero => simp
  | succ n ih => simpa [List.replicate_succ] using ih

/-- A word is read back, unless it opens an allocation whose element type is taken as it stands. -/
theorem scan_word {w : String} (hw : isIdentifier w.toList = true) {rest : List Char}
    (hrest : EndsWord rest) (hnew : reading ≠ .plain → mode = .operand → w ≠ "new") :
    scan reading mode (w.toList ++ rest) = .word w :: scan reading (mode.afterWord w) rest := by
  cases hchars : w.toList with
  | nil => simp [hchars, isIdentifier] at hw
  | cons c cs =>
    rw [hchars, isIdentifier, Bool.and_eq_true] at hw
    have hblank := isBlank_of_isNameStart hw.1
    simp only [isBlank, Bool.or_eq_false_iff, beq_eq_false_iff_ne] at hblank
    rw [List.cons_append, scan, if_neg hblank.2, if_neg hblank.1, if_pos hw.1,
      takeWhile_word hw.2 hrest, dropWhile_word hw.2 hrest, ← hchars, String.ofList_toList]
    exact if_neg fun h => hnew h.1 h.2.1 h.2.2

theorem scan_punct {p : String} (hp : p.toList ∈ punctuators) {rest : List Char}
    (hrest : ∀ c ∈ rest.head?, lengthens p.toList c = false)
    (hopen : reading ≠ .plain → mode = .operand → p.toList.head? ≠ some '[') :
    scan reading mode (p.toList ++ rest) = .punct p :: scan reading (mode.after p) rest := by
  have hmunch := munch_append hp hrest
  cases hchars : p.toList with
  | nil => exact absurd hchars (punctuators_ne_nil _ hp)
  | cons c cs =>
    have hblank := punctuators_not_blank _ hp c (by simp [hchars])
    simp only [isBlank, Bool.or_eq_false_iff, beq_eq_false_iff_ne] at hblank
    have hname := punctuator_not_nameStart hp (by simp [hchars] : c ∈ p.toList)
    have hbracket : ¬ (reading ≠ .plain ∧ mode = .operand ∧ c = '[') :=
      fun h => hopen h.1 h.2.1 (by simp [hchars, h.2.2])
    rw [hchars] at hmunch
    rw [List.cons_append] at hmunch ⊢
    rw [scan, if_neg hblank.2, if_neg hblank.1, if_neg (by simp [hname]), if_neg hbracket, hmunch]
    simp only [← hchars, String.ofList_toList]
    simp [hchars]

end

end CppTree
