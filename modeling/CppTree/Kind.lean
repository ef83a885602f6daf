/-!
# Kinds

The constructs a tree is made of, without their contents, with the names that reports, inspections
and backends use for them.
-/

namespace CppTree

/-- The constructs, without their contents. -/
inductive Kind where
  | unit | assign | binary | prefixed | suffixed | index | call | lambda | access | allocation
  | conditional | tuple | ret | block | literal
deriving DecidableEq, Inhabited

namespace Kind

/-- Every kind, in the order in which reports list them. -/
def all : List Kind :=
  [unit, assign, binary, prefixed, suffixed, index, call, lambda, access, allocation, conditional,
   tuple, ret, block, literal]

/-- The name of a kind in reports and inspections. -/
def label : Kind → String
  | unit => "Root"
  | assign => "Assign"
  | binary => "Binary"
  | prefixed => "Prefix"
  | suffixed => "Suffix"
  | index => "Index"
  | call => "Call"
  | lambda => "Lambda"
  | access => "Access"
  | allocation => "New"
  | conditional => "Conditional"
  | tuple => "Tuple"
  | ret => "Return"
  | block => "Block"
  | literal => "Literal"

/-- The name under which a backend handles a kind: its label in lower case. -/
def handler (kind : Kind) : String :=
  kind.label.toLower

end Kind

end CppTree
