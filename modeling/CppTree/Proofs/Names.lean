import CppTree.Name.TypeName
import Mathlib.Data.String.Defs

/-!
# The characters of names

Which characters the texts of identifiers and of element types can hold, and which texts are member
names.
-/

namespace CppTree

theorem isNameChar_of_isNameStart {c : Char} (hc : isNameStart c = true) : isNameChar c = true := by
  simp only [isNameStart, isNameChar, Char.isAlphanum, Bool.or_eq_true] at hc ⊢
  rcases hc with hc | hc
  · exact .inl (.inl hc)
  · exact .inr hc

theorem isNameChar_of_isIdentifier {cs : List Char} (h : isIdentifier cs = true) {c : Char}
    (hc : c ∈ cs) : isNameChar c = true := by
  cases cs with
  | nil => cases hc
  | cons first rest =>
    rw [isIdentifier, Bool.and_eq_true, List.all_eq_true] at h
    rcases List.mem_cons.mp hc with rfl | hc
    · exact isNameChar_of_isNameStart h.1
    · exact h.2 c hc

theorem isTypeChar_of_isTypeName {cs : List Char} (h : isTypeName cs = true) {c : Char}
    (hc : c ∈ cs) : isTypeChar c = true := by
  cases cs with
  | nil => cases hc
  | cons first rest =>
    simp only [isTypeName, Bool.and_eq_true, List.all_eq_true] at h
    rcases List.mem_cons.mp hc with rfl | hc
    · rw [isTypeChar, isNameChar_of_isNameStart h.1.1.1, Bool.true_or]
    · exact h.1.1.2 c hc

/-! ## Member names -/

def IsLetter (c : Char) : Prop :=
  'A' ≤ c ∧ c ≤ 'Z' ∨ 'a' ≤ c ∧ c ≤ 'z'

def IsDigit (c : Char) : Prop :=
  '0' ≤ c ∧ c ≤ '9'

/-- Whether a text is an ASCII letter or underscore, and behind it ASCII letters, digits and
underscores only. -/
def IsMemberName (name : String) : Prop :=
  ∃ first rest, name.toList = first :: rest ∧ (IsLetter first ∨ first = '_') ∧
    ∀ c ∈ rest, IsLetter c ∨ IsDigit c ∨ c = '_'

theorem isAlpha_iff {c : Char} : c.isAlpha = true ↔ IsLetter c := by
  have hupper : c.isUpper = true ↔ 'A' ≤ c ∧ c ≤ 'Z' := decide_eq_true_iff
  have hlower : c.isLower = true ↔ 'a' ≤ c ∧ c ≤ 'z' :=
    Bool.and_eq_true_iff.trans (and_congr decide_eq_true_iff decide_eq_true_iff)
  exact Bool.or_eq_true_iff.trans (or_congr hupper hlower)

theorem isNameStart_iff {c : Char} : isNameStart c = true ↔ IsLetter c ∨ c = '_' := by
  rw [isNameStart, Bool.or_eq_true, isAlpha_iff, beq_iff_eq]

theorem isNameChar_iff {c : Char} :
    isNameChar c = true ↔ IsLetter c ∨ IsDigit c ∨ c = '_' := by
  have hdigit : c.isDigit = true ↔ IsDigit c := by simp [Char.isDigit, IsDigit, Char.le_def]
  rw [isNameChar, Char.isAlphanum, Bool.or_eq_true, Bool.or_eq_true, isAlpha_iff, hdigit,
    beq_iff_eq, or_assoc]

theorem isIdentifier_iff {name : String} : isIdentifier name.toList = true ↔ IsMemberName name := by
  unfold IsMemberName
  cases name.toList with
  | nil => simp [isIdentifier]
  | cons first rest =>
    simp only [isIdentifier, Bool.and_eq_true, List.all_eq_true, isNameStart_iff, isNameChar_iff]
    constructor
    · intro h
      exact ⟨first, rest, rfl, h⟩
    · rintro ⟨first, rest, hchars, h⟩
      cases hchars
      exact h

/-! ## ASCII -/

theorem isAscii_of_isNameChar {c : Char} (h : isNameChar c = true) : c.isAscii = true := by
  have hle {last : Char} (hlast : last.isAscii = true) (hc : c ≤ last) : c.isAscii = true := by
    rw [Char.isAscii, decide_eq_true_eq] at hlast ⊢
    exact Nat.lt_of_le_of_lt hc hlast
  rcases isNameChar_iff.mp h with (⟨-, hc⟩ | ⟨-, hc⟩) | ⟨-, hc⟩ | rfl
  · exact hle (by decide) hc
  · exact hle (by decide) hc
  · exact hle (by decide) hc
  · decide

theorem isAscii_of_isTypeChar {c : Char} (h : isTypeChar c = true) : c.isAscii = true := by
  rw [isTypeChar, Bool.or_eq_true] at h
  rcases h with h | h
  · exact isAscii_of_isNameChar h
  · have hall : [':', '<', '>', ',', '*', '&', ' ', '[', ']'].all Char.isAscii = true := by decide
    exact List.all_eq_true.mp hall c (by simpa using h)

end CppTree
