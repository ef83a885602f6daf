import CppTree.Name.Identifier
import Mathlib.Data.List.Infix
import Mathlib.Data.List.TakeWhile

/-!
# Tokens

How a C++ text falls into tokens: blanks and line breaks are skipped, an identifier is as long as
possible, and any other token is the longest punctuator that the text starts with.  Main statements:
`munch_eq_some_iff`, the punctuator read is the longest one; `lex_word` and `lex_punct`, a word or a
punctuator is read back unless the next character would lengthen it.
-/

namespace CppTree

/-- A token of C++ without numbers and quoted texts.  Keywords are words. -/
inductive Token where
  | word (text : String)
  | punct (spelling : String)
  /-- A character that starts no token. -/
  | stray (c : Char)
deriving DecidableEq, Inhabited

namespace Token

/-- The bracket that opens a block.  Patterns need it as a literal, which names the character by its
code. -/
@[match_pattern]
abbrev openBrace : Token := .punct "\x7b"

/-- The bracket that closes a block. -/
@[match_pattern]
abbrev closeBrace : Token := .punct "\x7d"

theorem openBrace_eq : openBrace = .punct (String.singleton '{') := by decide

theorem closeBrace_eq : closeBrace = .punct (String.singleton '}') := by decide

end Token

/-- Whether a character only separates tokens. -/
def isBlank (c : Char) : Bool :=
  c == ' ' || c == '\n'

/-! ## Punctuators -/

/-- The punctuators of C++ and the two openers of comments, longer ones before shorter ones. -/
def punctuators : List (List Char) :=
  ["%:%:",
   "...", "<=>", "<<=", ">>=", "->*",
   "<:", ":>", "<%", "%>", "%:", "##", "::", ".*", "->", "+=", "-=", "*=", "/=", "%=", "^=", "&=",
   "|=", "==", "!=", "<=", ">=", "&&", "||", "<<", ">>", "++", "--", "//", "/*",
   String.singleton '{', String.singleton '}', "[", "]", "(", ")", ";", ":", "?", ".", "~", "!",
   "+", "-", "*", "/", "%", "^", "&", "|", "=", "<", ">", ",", "#"].map String.toList

theorem punctuators_sorted : punctuators.Pairwise fun p q => q.length ≤ p.length := by
  decide

theorem punctuators_ne_nil : ∀ p ∈ punctuators, p ≠ [] := by
  decide

theorem punctuators_not_blank : ∀ p ∈ punctuators, ∀ c ∈ p, isBlank c = false := by
  have h : (punctuators.all fun p => p.all fun c => !isBlank c) = true := by decide
  simpa using h

theorem punctuators_not_nameChar : ∀ p ∈ punctuators, ∀ c ∈ p, isNameChar c = false := by
  have h : (punctuators.all fun p => p.all fun c => !isNameChar c) = true := by decide
  simpa using h

theorem punctuator_not_nameStart {p : List Char} (hp : p ∈ punctuators) {c : Char} (hc : c ∈ p) :
    isNameStart c = false := by
  have hname := punctuators_not_nameChar p hp c hc
  simp only [isNameChar, isNameStart, Char.isAlphanum, Bool.or_eq_false_iff] at hname ⊢
  exact ⟨hname.1.1, hname.2⟩

/-- The first punctuator of the list that the text starts with. -/
def munch (cs : List Char) : Option (List Char) :=
  punctuators.find? fun p => p.isPrefixOf cs

theorem longest_of_munch {cs p : List Char} (h : munch cs = some p) :
    p ∈ punctuators ∧ p <+: cs ∧ ∀ q ∈ punctuators, q <+: cs → q.length ≤ p.length := by
  obtain ⟨hp, before, after, hsplit, hbefore⟩ := List.find?_eq_some_iff_append.mp h
  refine ⟨by rw [hsplit]; simp, List.isPrefixOf_iff_prefix.mp hp, fun q hq hqcs => ?_⟩
  -- The punctuator found first has no longer one behind it in the list.
  have hsorted := punctuators_sorted
  rw [hsplit] at hq hsorted
  rcases List.mem_append.mp hq with hq | hq
  · have hnot := hbefore q hq
    simp [List.isPrefixOf_iff_prefix.mpr hqcs] at hnot
  · rcases List.mem_cons.mp hq with rfl | hq
    · exact le_rfl
    · exact (List.pairwise_cons.mp (List.pairwise_append.mp hsorted).2.1).1 q hq

/-- What is read is the longest punctuator that the text starts with. -/
theorem munch_eq_some_iff {cs p : List Char} :
    munch cs = some p ↔
      p ∈ punctuators ∧ p <+: cs ∧ ∀ q ∈ punctuators, q <+: cs → q.length ≤ p.length := by
  refine ⟨longest_of_munch, fun ⟨hmem, hp, hlongest⟩ => ?_⟩
  cases h : munch cs with
  | none =>
    have hnone := List.find?_eq_none.mp h p hmem
    exact absurd (List.isPrefixOf_iff_prefix.mpr hp) hnone
  | some q =>
    obtain ⟨hqmem, hqcs, hqlongest⟩ := longest_of_munch h
    have hlength : q.length = p.length := le_antisymm (hlongest q hqmem hqcs) (hqlongest p hmem hp)
    rw [(List.prefix_of_prefix_length_le hqcs hp hlength.le).eq_of_length hlength]

/-- Whether some longer punctuator starts with `p` and then the character. -/
def lengthens (p : List Char) (c : Char) : Bool :=
  punctuators.any fun q => (p ++ [c]).isPrefixOf q

theorem mem_of_lengthens {p : List Char} {c : Char} (h : lengthens p c = true) :
    ∃ q ∈ punctuators, c ∈ q := by
  obtain ⟨q, hq, hprefix⟩ := List.any_eq_true.mp h
  exact ⟨q, hq, (List.isPrefixOf_iff_prefix.mp hprefix).subset (by simp)⟩

theorem lengthens_of_isBlank (p : List Char) {c : Char} (hc : isBlank c = true) :
    lengthens p c = false := by
  by_contra h
  obtain ⟨q, hq, hcq⟩ := mem_of_lengthens (by simpa using h)
  simp [punctuators_not_blank q hq c hcq] at hc

theorem lengthens_of_isNameChar (p : List Char) {c : Char} (hc : isNameChar c = true) :
    lengthens p c = false := by
  by_contra h
  obtain ⟨q, hq, hcq⟩ := mem_of_lengthens (by simpa using h)
  simp [punctuators_not_nameChar q hq c hcq] at hc

theorem munch_append {p rest : List Char} (hp : p ∈ punctuators)
    (hrest : ∀ c ∈ rest.head?, lengthens p c = false) : munch (p ++ rest) = some p := by
  refine munch_eq_some_iff.mpr ⟨hp, List.prefix_append p rest, fun q hq hqcs => ?_⟩
  -- A longer punctuator would go on with the first character of the rest.
  by_contra hlonger
  obtain ⟨more, rfl⟩ := List.prefix_of_prefix_length_le (List.prefix_append p rest) hqcs (by omega)
  obtain ⟨after, hafter⟩ := hqcs
  rw [List.append_assoc, List.append_cancel_left_eq] at hafter
  cases more with
  | nil => simp at hlonger
  | cons c more =>
    have hc := hrest c (by simp [← hafter])
    have hlengthens : lengthens p c = true :=
      List.any_eq_true.mpr ⟨_, hq, List.isPrefixOf_iff_prefix.mpr ⟨more, by simp⟩⟩
    simp [hlengthens] at hc

/-! ## The tokens of a text -/

/-- The tokens of a text, by maximal munch. -/
def lex : List Char → List Token
  | [] => []
  | c :: cs =>
    if isBlank c then lex cs
    else if isNameStart c then
      .word (String.ofList (c :: cs.takeWhile isNameChar)) :: lex (cs.dropWhile isNameChar)
    else
      match munch (c :: cs) with
      | some p => .punct (String.ofList p) :: lex (cs.drop (p.length - 1))
      | none => .stray c :: lex cs
termination_by cs => cs.length
decreasing_by
  · simp
  · exact Nat.lt_succ_of_le (List.dropWhile_suffix _).length_le
  · rw [List.length_drop, List.length_cons]
    omega
  · simp

@[simp]
theorem lex_nil : lex [] = [] := by
  rw [lex]

/-- Whether a word before this text ends there. -/
def EndsWord (rest : List Char) : Prop :=
  ∀ c ∈ rest.head?, isNameChar c = false

theorem takeWhile_word {w rest : List Char} (hw : w.all isNameChar = true) (hrest : EndsWord rest) :
    (w ++ rest).takeWhile isNameChar = w := by
  rw [List.takeWhile_append_of_pos (List.all_eq_true.mp hw)]
  cases rest with
  | nil => simp
  | cons c rest => simp [hrest c rfl]

theorem dropWhile_word {w rest : List Char} (hw : w.all isNameChar = true) (hrest : EndsWord rest) :
    (w ++ rest).dropWhile isNameChar = rest := by
  rw [List.dropWhile_append_of_pos (List.all_eq_true.mp hw)]
  cases rest with
  | nil => simp
  | cons c rest => simp [hrest c rfl]

theorem isBlank_of_isNameStart {c : Char} (hc : isNameStart c = true) : isBlank c = false := by
  by_contra h
  rcases (by simpa [isBlank, or_iff_not_imp_left] using h : c = ' ' ∨ c = '\n') with rfl | rfl <;>
    exact absurd hc (by decide)

theorem lex_word {w : String} (hw : isIdentifier w.toList = true) {rest : List Char}
    (hrest : EndsWord rest) : lex (w.toList ++ rest) = .word w :: lex rest := by
  cases hchars : w.toList with
  | nil => simp [hchars, isIdentifier] at hw
  | cons c cs =>
    rw [hchars, isIdentifier, Bool.and_eq_true] at hw
    rw [List.cons_append, lex, if_neg (by simp [isBlank_of_isNameStart hw.1]), if_pos hw.1,
      takeWhile_word hw.2 hrest, dropWhile_word hw.2 hrest, ← hchars, String.ofList_toList]

theorem lex_punct {p : String} (hp : p.toList ∈ punctuators) {rest : List Char}
    (hrest : ∀ c ∈ rest.head?, lengthens p.toList c = false) :
    lex (p.toList ++ rest) = .punct p :: lex rest := by
  have hmunch := munch_append hp hrest
  cases hchars : p.toList with
  | nil => exact absurd hchars (punctuators_ne_nil _ hp)
  | cons c cs =>
    have hblank := punctuators_not_blank _ hp c (by simp [hchars])
    have hname := punctuator_not_nameStart hp (by simp [hchars] : c ∈ p.toList)
    rw [hchars] at hmunch
    rw [List.cons_append] at hmunch ⊢
    -- The first character is neither blank nor that of a word, so the text is munched.
    rw [lex, if_neg (by simp [hblank]), if_neg (by simp [hname]), hmunch]
    simp only [← hchars, String.ofList_toList]
    simp [hchars]

end CppTree
