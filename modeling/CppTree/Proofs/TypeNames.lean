import CppTree.Proofs.Names
import Mathlib.Data.List.DropRight

/-!
# The grammar of type names

Which texts are element types.  The brackets of a type name are checked by one pass that keeps the
closing brackets still to come; it accepts exactly the words of a grammar in which angle and square
brackets nest.  Main statement: `TypeName.ofText_eq_ok_iff_and_eq_error_iff`.
-/

namespace CppTree

/-! ## Nesting -/

/-- The words of the grammar `W ::= empty | c W | < W > W | [ W ] W`, where `c` stands for every
character that is no bracket. -/
inductive Nested : List Char → Prop where
  | nil : Nested []
  | plain {c : Char} {rest : List Char} (hc : c ∉ ['<', '>', '[', ']']) (hrest : Nested rest) :
      Nested (c :: rest)
  | angle {inner rest : List Char} (hinner : Nested inner) (hrest : Nested rest) :
      Nested ('<' :: (inner ++ '>' :: rest))
  | square {inner rest : List Char} (hinner : Nested inner) (hrest : Nested rest) :
      Nested ('[' :: (inner ++ ']' :: rest))

/-- Whether the characters close the pending brackets one after another, innermost first, with a
word of the grammar before each of them and one behind the last. -/
def NestedWithin : List Char → List Char → Prop
  | [], cs => Nested cs
  | closer :: pending, cs =>
    ∃ inner rest, cs = inner ++ closer :: rest ∧ Nested inner ∧ NestedWithin pending rest

theorem Nested.pair {opener closer : Char} (h : closerOf? opener = some closer)
    {inner rest : List Char} (hinner : Nested inner) (hrest : Nested rest) :
    Nested (opener :: (inner ++ closer :: rest)) := by
  unfold closerOf? at h
  split at h
  next hangle =>
    cases h
    rw [hangle]
    exact angle hinner hrest
  next =>
    split at h
    next hsquare =>
      cases h
      rw [hsquare]
      exact square hinner hrest
    next => cases h

theorem NestedWithin.plain {pending cs : List Char} (h : NestedWithin pending cs) {c : Char}
    (hc : c ∉ ['<', '>', '[', ']']) : NestedWithin pending (c :: cs) := by
  cases pending with
  | nil => exact Nested.plain hc h
  | cons closer pending =>
    obtain ⟨inner, rest, rfl, hinner, hrest⟩ := h
    exact ⟨c :: inner, rest, rfl, hinner.plain hc, hrest⟩

/-- A bracket that is closed first stands inside the outer ones. -/
theorem NestedWithin.pair {pending cs : List Char} {opener closer : Char}
    (hcloser : closerOf? opener = some closer) (h : NestedWithin (closer :: pending) cs) :
    NestedWithin pending (opener :: cs) := by
  obtain ⟨inner, rest, rfl, hinner, hrest⟩ := h
  cases pending with
  | nil => exact hinner.pair hcloser hrest
  | cons outer pending =>
    obtain ⟨middle, rest, rfl, hmiddle, hrest⟩ := hrest
    exact ⟨opener :: (inner ++ closer :: middle), rest, by simp, hinner.pair hcloser hmiddle, hrest⟩

theorem not_bracket {c : Char} (hopener : closerOf? c = none) (hcloser : ¬ (c = '>' ∨ c = ']')) :
    c ∉ ['<', '>', '[', ']'] := by
  grind [closerOf?]

/-- A text that the pass accepts closes what is pending. -/
theorem nestedWithin_of_bracketsNest {pending cs : List Char}
    (h : bracketsNest pending cs = true) : NestedWithin pending cs := by
  fun_induction bracketsNest pending cs with
  | case1 pending =>
    rw [List.isEmpty_iff.mp h]
    exact Nested.nil
  | case2 pending c cs closer hopener ih => exact (ih h).pair hopener
  | case3 c cs hopener hcloser closer pending ih =>
    rw [Bool.and_eq_true, beq_iff_eq] at h
    obtain ⟨rfl, h⟩ := h
    exact ⟨[], cs, rfl, .nil, ih h⟩
  | case4 => cases h
  | case5 pending c cs hopener hcloser ih => exact (ih h).plain (not_bracket hopener hcloser)

theorem bracketsNest_opener {opener closer : Char} (h : closerOf? opener = some closer)
    (pending cs : List Char) :
    bracketsNest pending (opener :: cs) = bracketsNest (closer :: pending) cs := by
  rw [bracketsNest.eq_def]
  simp only [h]

theorem bracketsNest_closer {opener closer : Char} (h : closerOf? opener = some closer)
    (pending cs : List Char) :
    bracketsNest (closer :: pending) (closer :: cs) = bracketsNest pending cs := by
  have hcloser : closerOf? closer = none ∧ (closer = '>' ∨ closer = ']') := by grind [closerOf?]
  simp [bracketsNest, hcloser]

theorem bracketsNest_plain {c : Char} (hc : c ∉ ['<', '>', '[', ']']) (pending cs : List Char) :
    bracketsNest pending (c :: cs) = bracketsNest pending cs := by
  have hbracket : closerOf? c = none ∧ ¬ (c = '>' ∨ c = ']') := by grind [closerOf?]
  rw [bracketsNest.eq_def]
  simp only [hbracket.1, if_neg hbracket.2]

/-- The pass goes over a word of the grammar and comes back to what was pending before it. -/
theorem Nested.bracketsNest_append {cs : List Char} (h : Nested cs) (pending rest : List Char) :
    bracketsNest pending (cs ++ rest) = bracketsNest pending rest := by
  induction h generalizing pending rest with
  | nil => rfl
  | plain hc _ ih => rw [List.cons_append, bracketsNest_plain hc, ih]
  | angle _ _ hinner hrest =>
    rw [List.cons_append, List.append_assoc, bracketsNest_opener rfl, hinner, List.cons_append,
      bracketsNest_closer (rfl : closerOf? '<' = some '>'), hrest]
  | square _ _ hinner hrest =>
    rw [List.cons_append, List.append_assoc, bracketsNest_opener rfl, hinner, List.cons_append,
      bracketsNest_closer (rfl : closerOf? '[' = some ']'), hrest]

theorem bracketsNest_iff {cs : List Char} : bracketsNest [] cs = true ↔ Nested cs := by
  constructor
  · exact nestedWithin_of_bracketsNest
  · intro h
    have hpass := h.bracketsNest_append [] []
    rw [List.append_nil] at hpass
    rw [hpass]
    rfl

/-! ## Type names -/

/-- Whether a text is spelled like an element type: it starts with an ASCII letter or underscore,
has ASCII letters, digits and some punctuation only, does not end in a blank, and its brackets
nest. -/
structure IsTypeSpelling (text : String) : Prop where
  start : ∃ first ∈ text.toList.head?, IsLetter first ∨ first = '_'
  chars : ∀ c ∈ text.toList,
    IsLetter c ∨ IsDigit c ∨ c ∈ ['_', ':', '<', '>', ',', '*', '&', ' ', '[', ']']
  ending : text.toList.getLast? ≠ some ' '
  nested : Nested text.toList

theorem isTypeChar_iff {c : Char} : isTypeChar c = true ↔
    IsLetter c ∨ IsDigit c ∨ c ∈ ['_', ':', '<', '>', ',', '*', '&', ' ', '[', ']'] := by
  simp only [isTypeChar, Bool.or_eq_true, isNameChar_iff, List.contains_iff_mem, List.mem_cons,
    or_assoc]

/-- Whether the characters are those of a type name and the first of them starts a name. -/
def hasTypeNameShape : List Char → Bool
  | [] => false
  | c :: cs => isNameStart c && cs.all isTypeChar

theorem hasTypeNameShape_iff {cs : List Char} : hasTypeNameShape cs = true ↔
    (∃ first ∈ cs.head?, isNameStart first = true) ∧ ∀ c ∈ cs, isTypeChar c = true := by
  cases cs with
  | nil => simp [hasTypeNameShape]
  | cons c cs =>
    have hfirst : isNameStart c = true → isTypeChar c = true := fun h => by
      rw [isTypeChar, isNameChar_of_isNameStart h, Bool.true_or]
    simpa [hasTypeNameShape] using fun h _ => hfirst h

theorem isTypeName_eq_and (cs : List Char) :
    isTypeName cs = (hasTypeNameShape cs && cs.getLast? != some ' ' && bracketsNest [] cs) := by
  cases cs <;> rfl

theorem isTypeName_iff {text : String} : isTypeName text.toList = true ↔ IsTypeSpelling text := by
  simp only [isTypeName_eq_and, Bool.and_eq_true, hasTypeNameShape_iff, bne_iff_ne,
    bracketsNest_iff, isNameStart_iff, isTypeChar_iff]
  constructor
  · rintro ⟨⟨⟨hstart, hchars⟩, hending⟩, hnested⟩
    exact ⟨hstart, hchars, hending, hnested⟩
  · rintro ⟨hstart, hchars, hending, hnested⟩
    exact ⟨⟨⟨hstart, hchars⟩, hending⟩, hnested⟩

/-- Exactly the texts that are spelled like an element type are accepted, and kept as they are;
every other text is the fault. -/
theorem TypeName.ofText_eq_ok_iff_and_eq_error_iff (text : String) :
    ((∃ name, TypeName.ofText text = .ok name ∧ name.text = text) ↔ IsTypeSpelling text) ∧
      (TypeName.ofText text = .error (.invalidTypeName text) ↔ ¬ IsTypeSpelling text) := by
  rw [← isTypeName_iff]
  unfold ofText
  split
  next h => simp [h]
  next h => simp [h]

/-! ## White space -/

/-- Whether a character is white space, by the Unicode property of that name. -/
def isWhiteSpace (c : Char) : Bool :=
  ('\t' ≤ c && c ≤ '\r') || ('\u2000' ≤ c && c ≤ '\u200a') ||
    [' ', '\u0085', '\u00a0', '\u1680', '\u2028', '\u2029', '\u202f', '\u205f',
      '\u3000'].contains c

/-- The characters without the white space at both ends. -/
def trimmed (cs : List Char) : List Char :=
  (cs.dropWhile isWhiteSpace).rdropWhile isWhiteSpace

theorem isWhiteSpace_iff_of_isTypeChar {c : Char} (hc : isTypeChar c = true) :
    isWhiteSpace c = true ↔ c = ' ' := by
  have hascii : c.toNat < 128 := by simpa [Char.isAscii] using isAscii_of_isTypeChar hc
  have hall : ∀ n < 128, isTypeChar (Char.ofNat n) = true →
      (isWhiteSpace (Char.ofNat n) = true ↔ Char.ofNat n = ' ') := by decide
  simpa [Char.ofNat_toNat, hc] using hall c.toNat hascii

theorem trimmed_eq_self_iff {cs : List Char} (hshape : hasTypeNameShape cs = true) :
    trimmed cs = cs ↔ cs.getLast? ≠ some ' ' := by
  obtain ⟨⟨first, hfirst, hstart⟩, hchars⟩ := hasTypeNameShape_iff.mp hshape
  have hplain : ¬ isWhiteSpace first = true := fun hwhite => by
    have hblank := (isWhiteSpace_iff_of_isTypeChar (hchars first (List.mem_of_mem_head? hfirst))).mp
      hwhite
    rw [hblank] at hstart
    cases hstart
  have hfront : cs.dropWhile isWhiteSpace = cs := by
    obtain ⟨rest, rfl⟩ := List.head?_eq_some_iff.mp hfirst
    exact List.dropWhile_cons_of_neg hplain
  rw [trimmed, hfront, List.rdropWhile_eq_self_iff]
  have hne : cs ≠ [] := by
    rintro rfl
    cases hfirst
  have hlast : cs.getLast? ≠ some ' ' ↔ ¬ isWhiteSpace (cs.getLast hne) = true := by
    rw [List.getLast?_eq_some_getLast hne, Ne, Option.some_inj,
      isWhiteSpace_iff_of_isTypeChar (hchars _ (List.getLast_mem hne))]
  rw [hlast]
  exact ⟨fun h => h hne, fun h _ => h⟩

/-- Trimming white space of any kind refuses no more than a blank at the end does: a text that has
the shape of a type name starts with none, and the blank is the only white space in it. -/
theorem isTypeName_eq_trimmed (cs : List Char) :
    isTypeName cs = (trimmed cs == cs && hasTypeNameShape cs && bracketsNest [] cs) := by
  rw [isTypeName_eq_and]
  by_cases hshape : hasTypeNameShape cs = true
  · have htrimmed : (trimmed cs == cs) = (cs.getLast? != some ' ') := by
      rw [Bool.eq_iff_iff, beq_iff_eq, bne_iff_ne]
      exact trimmed_eq_self_iff hshape
    rw [htrimmed, Bool.and_comm (hasTypeNameShape cs)]
  · rw [Bool.not_eq_true] at hshape
    rw [hshape, Bool.and_false, Bool.false_and]

end CppTree
