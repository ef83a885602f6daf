import CppTree.Operator.Basic

/-!
# The operator tables

Binary, prefix, suffix and access operators with their C++ spellings, the tokens that are read as
them, and the binding strength of the binary ones.  The words `and`, `or`, `not`, `is` and `isnt`
are read as operators and written as punctuation.
-/

namespace CppTree

/-! ## Binary operators -/

/-- Binary operators, compound assignments included. -/
inductive BinaryOp where
  | add | subtract | multiply | divide | modulo
  | equal | notEqual | less | lessOrEqual | greater | greaterOrEqual
  | and | or
  | bitAnd | bitOr | bitXor | shiftLeft | shiftRight
  | addAssign | subtractAssign | multiplyAssign | divideAssign | moduloAssign
  | bitAndAssign | bitOrAssign | bitXorAssign | shiftLeftAssign | shiftRightAssign
deriving DecidableEq, Inhabited

namespace BinaryOp

def all : List BinaryOp :=
  [add, subtract, multiply, divide, modulo,
   equal, notEqual, less, lessOrEqual, greater, greaterOrEqual,
   and, or,
   bitAnd, bitOr, bitXor, shiftLeft, shiftRight,
   addAssign, subtractAssign, multiplyAssign, divideAssign, moduloAssign,
   bitAndAssign, bitOrAssign, bitXorAssign, shiftLeftAssign, shiftRightAssign]

def spelling : BinaryOp → String
  | add => "+"
  | subtract => "-"
  | multiply => "*"
  | divide => "/"
  | modulo => "%"
  | equal => "=="
  | notEqual => "!="
  | less => "<"
  | lessOrEqual => "<="
  | greater => ">"
  | greaterOrEqual => ">="
  | and => "&&"
  | or => "||"
  | bitAnd => "&"
  | bitOr => "|"
  | bitXor => "^"
  | shiftLeft => "<<"
  | shiftRight => ">>"
  | addAssign => "+="
  | subtractAssign => "-="
  | multiplyAssign => "*="
  | divideAssign => "/="
  | moduloAssign => "%="
  | bitAndAssign => "&="
  | bitOrAssign => "|="
  | bitXorAssign => "^="
  | shiftLeftAssign => "<<="
  | shiftRightAssign => ">>="

def label : BinaryOp → String
  | add => "Add"
  | subtract => "Subtract"
  | multiply => "Multiply"
  | divide => "Divide"
  | modulo => "Modulo"
  | equal => "Equal"
  | notEqual => "NotEqual"
  | less => "Less"
  | lessOrEqual => "LessOrEqual"
  | greater => "Greater"
  | greaterOrEqual => "GreaterOrEqual"
  | and => "And"
  | or => "Or"
  | bitAnd => "BitAnd"
  | bitOr => "BitOr"
  | bitXor => "BitXor"
  | shiftLeft => "ShiftLeft"
  | shiftRight => "ShiftRight"
  | addAssign => "AddAssign"
  | subtractAssign => "SubtractAssign"
  | multiplyAssign => "MultiplyAssign"
  | divideAssign => "DivideAssign"
  | moduloAssign => "ModuloAssign"
  | bitAndAssign => "BitAndAssign"
  | bitOrAssign => "BitOrAssign"
  | bitXorAssign => "BitXorAssign"
  | shiftLeftAssign => "ShiftLeftAssign"
  | shiftRightAssign => "ShiftRightAssign"

/-- The tokens that are read as binary operators. -/
def table : List (String × BinaryOp) :=
  [("+", add),
   ("-", subtract),
   ("*", multiply),
   ("/", divide),
   ("%", modulo),
   ("==", equal),
   ("is", equal),
   ("!=", notEqual),
   ("isnt", notEqual),
   ("<", less),
   ("<=", lessOrEqual),
   (">", greater),
   (">=", greaterOrEqual),
   ("&&", and),
   ("and", and),
   ("||", or),
   ("or", or),
   ("&", bitAnd),
   ("|", bitOr),
   ("^", bitXor),
   ("<<", shiftLeft),
   (">>", shiftRight),
   ("+=", addAssign),
   ("-=", subtractAssign),
   ("*=", multiplyAssign),
   ("/=", divideAssign),
   ("%=", moduloAssign),
   ("&=", bitAndAssign),
   ("|=", bitOrAssign),
   ("^=", bitXorAssign),
   ("<<=", shiftLeftAssign),
   (">>=", shiftRightAssign)]

instance : Operator BinaryOp where
  fixity := .binary
  spelling := spelling
  table := table
  label := label

/-- Binding strength in C++: the higher, the tighter.  Compound assignments bind loosest. -/
def precedence : BinaryOp → Nat
  | multiply | divide | modulo => 12
  | add | subtract => 11
  | shiftLeft | shiftRight => 10
  | less | lessOrEqual | greater | greaterOrEqual => 9
  | equal | notEqual => 8
  | bitAnd => 7
  | bitXor => 6
  | bitOr => 5
  | and => 4
  | or => 3
  | addAssign | subtractAssign | multiplyAssign | divideAssign | moduloAssign
  | bitAndAssign | bitOrAssign | bitXorAssign | shiftLeftAssign | shiftRightAssign => 1

/-- Exactly the compound assignments group from the right. -/
def isRightAssociative (op : BinaryOp) : Bool :=
  op.precedence == 1

end BinaryOp

/-! ## Prefix and suffix operators -/

/-- Operators written before their operand. -/
inductive PrefixOp where
  | negate | plus | not | bitNot | increment | decrement | dereference | addressOf
deriving DecidableEq, Inhabited

namespace PrefixOp

def all : List PrefixOp :=
  [negate, plus, not, bitNot, increment, decrement, dereference, addressOf]

def spelling : PrefixOp → String
  | negate => "-"
  | plus => "+"
  | not => "!"
  | bitNot => "~"
  | increment => "++"
  | decrement => "--"
  | dereference => "*"
  | addressOf => "&"

def label : PrefixOp → String
  | negate => "Negate"
  | plus => "Plus"
  | not => "Not"
  | bitNot => "BitNot"
  | increment => "Increment"
  | decrement => "Decrement"
  | dereference => "Dereference"
  | addressOf => "AddressOf"

/-- The tokens that are read as prefix operators. -/
def table : List (String × PrefixOp) :=
  [("-", negate),
   ("+", plus),
   ("!", not),
   ("not", not),
   ("~", bitNot),
   ("++", increment),
   ("--", decrement),
   ("*", dereference),
   ("&", addressOf)]

instance : Operator PrefixOp where
  fixity := .prefixed
  spelling := spelling
  table := table
  label := label

end PrefixOp

/-- Operators written after their operand. -/
inductive SuffixOp where
  | increment | decrement
deriving DecidableEq, Inhabited

namespace SuffixOp

def all : List SuffixOp := [increment, decrement]

def spelling : SuffixOp → String
  | increment => "++"
  | decrement => "--"

def label : SuffixOp → String
  | increment => "Increment"
  | decrement => "Decrement"

/-- The tokens that are read as suffix operators. -/
def table : List (String × SuffixOp) :=
  [("++", increment), ("--", decrement)]

instance : Operator SuffixOp where
  fixity := .suffixed
  spelling := spelling
  table := table
  label := label

end SuffixOp

/-! ## Access operators -/

/-- Operators between an object, a pointer or a scope and one of its members. -/
inductive AccessOp where
  | value | pointer | scope
deriving DecidableEq, Inhabited

namespace AccessOp

def all : List AccessOp := [value, pointer, scope]

def spelling : AccessOp → String
  | value => "."
  | pointer => "->"
  | scope => "::"

def label : AccessOp → String
  | value => "Value"
  | pointer => "Pointer"
  | scope => "Scope"

/-- The tokens that are read as access operators. -/
def table : List (String × AccessOp) :=
  [(".", value), ("->", pointer), ("::", scope)]

instance : Operator AccessOp where
  fixity := .access
  spelling := spelling
  table := table
  label := label

end AccessOp

end CppTree
