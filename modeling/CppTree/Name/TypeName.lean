import CppTree.Name.Identifier

/-!
# Type names

Element types of allocations, spelled as in C++: `int`, `std::vector<int>`, `char*`, `int[4]`.  A
type name starts like an identifier, uses only the characters below, does not end in a blank, and
its angle and square brackets nest.
-/

namespace CppTree

/-- The characters of a type name: those of names and `: < > , * & [ ]` and the blank. -/
def isTypeChar (c : Char) : Bool :=
  isNameChar c || [':', '<', '>', ',', '*', '&', ' ', '[', ']'].contains c

/-- The bracket that closes an opening angle or square bracket. -/
def closerOf? (c : Char) : Option Char :=
  if c = '<' then some '>' else if c = '[' then some ']' else none

/-- Whether angle and square brackets nest, across each other too.  `pending` holds the brackets
that still have to close, innermost first. -/
def bracketsNest (pending : List Char) : List Char → Bool
  | [] => pending.isEmpty
  | c :: cs =>
    match closerOf? c with
    | some closer => bracketsNest (closer :: pending) cs
    | none =>
      if c = '>' ∨ c = ']' then
        match pending with
        | closer :: rest => c == closer && bracketsNest rest cs
        | [] => false
      else bracketsNest pending cs

/-- Whether the characters spell a type name. -/
def isTypeName : List Char → Bool
  | [] => false
  | c :: cs =>
    isNameStart c && cs.all isTypeChar && (c :: cs).getLast? != some ' ' &&
      bracketsNest [] (c :: cs)

/-- A text that spells a type name. -/
structure TypeName where
  text : String
  wellSpelled : isTypeName text.toList = true
deriving DecidableEq

/-- Checks an element type; any text that is no type name is a fault. -/
def TypeName.ofText (name : String) : Except Fault TypeName :=
  if h : isTypeName name.toList = true then .ok ⟨name, h⟩ else .error (.invalidTypeName name)

end CppTree
