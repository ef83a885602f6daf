import CppTree.Operator.Tables
import Mathlib.Data.List.Nodup

/-!
# Tokens of operators

The table from which tokens are read and the spellings in which operators are written are inverse
to each other up to words: `Operator.ofToken?_eq_some_iff`, a token is read as an operator exactly
if it is its spelling or a word for it.  Exactly the tokens of a family are read:
`Operator.isToken_iff`.
-/

namespace CppTree

/-! ## Words for operators -/

/-- The words that may be written for an operator, with its spelling in C++. -/
def operatorWords : List (String × String) :=
  [("and", "&&"), ("or", "||"), ("is", "=="), ("isnt", "!="), ("not", "!")]

/-- A token with its words replaced by punctuation. -/
def canonicalToken (token : String) : String :=
  (operatorWords.lookup token).getD token

/-- The words that are read as operators of a fixity. -/
def Fixity.words : Fixity → List String
  | binary => ["is", "isnt", "and", "or"]
  | prefixed => ["not"]
  | suffixed | access => []

/-- In a table without a second entry for a key, what a key is looked up as is its entry. -/
theorem lookup_eq_some_iff_mem {α : Type} {entries : List (String × α)}
    (hkeys : (entries.map Prod.fst).Nodup) {key : String} {a : α} :
    entries.lookup key = some a ↔ (key, a) ∈ entries := by
  rw [List.lookup_eq_some_iff]
  constructor
  · rintro ⟨before, after, rfl, -⟩
    simp
  · intro hmem
    obtain ⟨before, after, rfl⟩ := List.append_of_mem hmem
    refine ⟨before, after, rfl, fun entry hentry => ?_⟩
    rw [List.map_append, List.map_cons, List.nodup_append] at hkeys
    have hne := hkeys.2.2 entry.1 (List.mem_map_of_mem hentry) key List.mem_cons_self
    exact bne_iff_ne.mpr hne.symm

namespace Operator

/-- The two tables of an operator family fit together.  Every spelling is an entry of its operator,
and the other entries are the words of the fixity, each for the operator whose spelling replaces
it. -/
class Lawful (α : Type) [Operator α] : Prop where
  tokens_nodup : ((table : List (String × α)).map Prod.fst).Nodup
  spelling_mem (op : α) : (spelling op, op) ∈ (table : List (String × α))
  spelling_eq : ∀ entry ∈ (table : List (String × α)), spelling entry.2 = canonicalToken entry.1
  words_eq : ((table : List (String × α)).map Prod.fst).filter (fun token =>
    canonicalToken token != token) = (fixity α).words

instance : Lawful BinaryOp where
  tokens_nodup := by decide
  spelling_mem op := by cases op <;> decide
  spelling_eq := by decide
  words_eq := by decide

instance : Lawful PrefixOp where
  tokens_nodup := by decide
  spelling_mem op := by cases op <;> decide
  spelling_eq := by decide
  words_eq := by decide

instance : Lawful SuffixOp where
  tokens_nodup := by decide
  spelling_mem op := by cases op <;> decide
  spelling_eq := by decide
  words_eq := by decide

instance : Lawful AccessOp where
  tokens_nodup := by decide
  spelling_mem op := by cases op <;> decide
  spelling_eq := by decide
  words_eq := by decide

variable {α : Type} [Operator α] [Lawful α] {token : String} {op : α}

theorem ofToken?_eq_some_iff_mem :
    ofToken? token = some op ↔ (token, op) ∈ (table : List (String × α)) :=
  lookup_eq_some_iff_mem Lawful.tokens_nodup

/-- Reading undoes writing. -/
theorem ofToken?_spelling (op : α) : ofToken? (spelling op) = some op :=
  ofToken?_eq_some_iff_mem.mpr (Lawful.spelling_mem op)

/-- Writing undoes reading, up to words. -/
theorem spelling_of_ofToken? (h : ofToken? token = some op) : spelling op = canonicalToken token :=
  Lawful.spelling_eq _ (ofToken?_eq_some_iff_mem.mp h)

theorem mem_words_iff :
    token ∈ (fixity α).words ↔
      (∃ op : α, ofToken? token = some op) ∧ canonicalToken token ≠ token := by
  rw [← Lawful.words_eq, List.mem_filter, bne_iff_ne, List.mem_map]
  refine and_congr_left fun _ => ⟨?_, fun ⟨op, h⟩ => ⟨_, ofToken?_eq_some_iff_mem.mp h, rfl⟩⟩
  rintro ⟨⟨token, op⟩, hmem, rfl⟩
  exact ⟨op, ofToken?_eq_some_iff_mem.mpr hmem⟩

/-- A token is read as an operator exactly if it is the spelling of the operator, or a word of the
fixity that the spelling replaces. -/
theorem ofToken?_eq_some_iff :
    ofToken? token = some op ↔
      token = spelling op ∨ token ∈ (fixity α).words ∧ canonicalToken token = spelling op := by
  constructor
  · intro h
    have hspelling := spelling_of_ofToken? h
    by_cases hcanonical : canonicalToken token = token
    · left
      rw [hspelling, hcanonical]
    · right
      exact ⟨mem_words_iff.mpr ⟨⟨op, h⟩, hcanonical⟩, hspelling.symm⟩
  · rintro (rfl | ⟨hword, hcanonical⟩)
    · exact ofToken?_spelling op
    · obtain ⟨⟨other, hother⟩, -⟩ := mem_words_iff.mp hword
      -- The word is read as some operator, and that one has the same spelling.
      have hsame : spelling other = spelling op := by rw [spelling_of_ofToken? hother, hcanonical]
      have hread := ofToken?_spelling other
      rw [hsame, ofToken?_spelling op] at hread
      rw [hother, hread]

/-- Whether a token spells an operator of the family, in C++ or by a word of the fixity. -/
def IsToken (α : Type) [Operator α] (token : String) : Prop :=
  (∃ op : α, spelling op = token) ∨ token ∈ (fixity α).words

/-- Exactly the tokens of a family are read. -/
theorem isToken_iff : IsToken α token ↔ ∃ op : α, ofToken? token = some op := by
  constructor
  · rintro (⟨op, rfl⟩ | hword)
    · exact ⟨op, ofToken?_spelling op⟩
    · exact (mem_words_iff.mp hword).1
  · rintro ⟨op, h⟩
    rcases ofToken?_eq_some_iff.mp h with rfl | ⟨hword, -⟩
    · exact .inl ⟨op, rfl⟩
    · exact .inr hword

theorem ofToken?_eq_none_iff : (ofToken? token : Option α) = none ↔ ¬ IsToken α token := by
  rw [isToken_iff, Option.eq_none_iff_forall_ne_some, not_exists]

end Operator

theorem BinaryOp.ofToken?_spelling (op : BinaryOp) : Operator.ofToken? op.spelling = some op :=
  Operator.ofToken?_spelling op

end CppTree
