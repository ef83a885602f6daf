import CppTree.Fault

/-!
# Identifiers

Member names: an ASCII letter or underscore, then ASCII letters, digits and underscores.
-/

namespace CppTree

/-- An ASCII letter or underscore: what a name starts with. -/
def isNameStart (c : Char) : Bool :=
  c.isAlpha || c == '_'

/-- An ASCII letter, digit or underscore: what a name continues with. -/
def isNameChar (c : Char) : Bool :=
  c.isAlphanum || c == '_'

/-- Whether the characters spell an identifier.  Keywords are not told apart. -/
def isIdentifier : List Char → Bool
  | [] => false
  | c :: cs => isNameStart c && cs.all isNameChar

/-- A text that spells an identifier. -/
structure Identifier where
  text : String
  wellSpelled : isIdentifier text.toList = true
deriving DecidableEq

/-- Checks a member name; any text that is no identifier is a fault. -/
def Identifier.ofText (name : String) : Except Fault Identifier :=
  if h : isIdentifier name.toList = true then .ok ⟨name, h⟩ else .error (.invalidIdentifier name)

end CppTree
