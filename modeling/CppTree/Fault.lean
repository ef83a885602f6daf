/-!
# Faults

Everything that can go wrong while a tree is built: a token that spells no operator of the wanted
fixity, a member name that is no identifier, or an element type that is no type name.  A fault keeps
the offending text as it was given; its wording is `Fault.message`.
-/

namespace CppTree

/-- Where an operator stands relative to its operands. -/
inductive Fixity where
  | binary
  | prefixed
  | suffixed
  | access
deriving DecidableEq, Inhabited

/-- The word for a fixity in messages. -/
def Fixity.word : Fixity → String
  | binary => "binary"
  | prefixed => "prefix"
  | suffixed => "suffix"
  | access => "access"

/-- Why a node was refused. -/
inductive Fault where
  /-- The token spells no operator of this fixity. -/
  | unknownOperator (fixity : Fixity) (token : String)
  /-- The member name is not an identifier. -/
  | invalidIdentifier (name : String)
  /-- The element type is not a type name. -/
  | invalidTypeName (name : String)
deriving DecidableEq

/-- The message for people: it quotes the offending text without escaping it. -/
def Fault.message : Fault → String
  | unknownOperator fixity token => "unknown " ++ fixity.word ++ " operator '" ++ token ++ "'"
  | invalidIdentifier name => "invalid member name '" ++ name ++ "'"
  | invalidTypeName name => "invalid element type '" ++ name ++ "'"

end CppTree
