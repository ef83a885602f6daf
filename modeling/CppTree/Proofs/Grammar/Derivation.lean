import CppTree.Proofs.Lexing.Tokens

/-!
# The expression grammar

Derivations of token lists, production by production:

* `primary ::= name | ( A )`
* `postfix ::= primary | postfix ++ | postfix -- | postfix [ A ] | postfix ( A, ... )`
  `| postfix . identifier | postfix -> identifier | postfix :: identifier`
* `unary ::= postfix | prefix-operator unary | new identifier ( ) | new identifier [ A ] ... [ A ]`
* `L13 ::= unary` and `L(p) ::= L(p+1) | L(p) operator-of-level-p L(p+1)`, for `p` from 12 to 3
* `A ::= L3 | L3 ? A : A | L3 = A | L3 compound-assignment A`

The levels are those of C++, by the spellings of the operators.  That the strengths by which brackets
are set agree with them is proved, not assumed.

In the full dialect a primary may also be a lambda, whose body is a block of statements or returns
something, and any type name may stand after `new`.  There line breaks are tokens too.
-/

namespace CppTree

/-- The part of the language that a derivation may use. -/
inductive Dialect where
  /-- Operators, calls, accesses and allocations of named types. -/
  | operators
  /-- Lambdas, statements and all element types on top. -/
  | full
deriving DecidableEq

/-- The binary operators of each level. -/
def levelOperators : Nat → List String
  | 12 => ["*", "/", "%"]
  | 11 => ["+", "-"]
  | 10 => ["<<", ">>"]
  | 9 => ["<", "<=", ">", ">="]
  | 8 => ["==", "!="]
  | 7 => ["&"]
  | 6 => ["^"]
  | 5 => ["|"]
  | 4 => ["&&"]
  | 3 => ["||"]
  | _ => []

def compoundAssignments : List String :=
  ["*=", "/=", "%=", "+=", "-=", "<<=", ">>=", "&=", "^=", "|="]

theorem BinaryOp.mem_levelOperators {op : BinaryOp} {p : Nat} :
    op.spelling ∈ levelOperators p ↔ op.precedence = p ∧ op.isRightAssociative = false := by
  constructor
  · intro h
    unfold levelOperators at h
    split at h <;> first
      | exact absurd h List.not_mem_nil
      | revert h
        cases op <;> decide
  · rintro ⟨rfl, h⟩
    revert h
    cases op <;> decide

theorem BinaryOp.mem_compoundAssignments {op : BinaryOp} :
    op.spelling ∈ compoundAssignments ↔ op.precedence = Binding.assignment := by
  cases op <;> decide

/-- What a derivation derives. -/
inductive Nonterminal where
  | primary | postfixed | unary
  /-- Binary operations of this level or a higher one. -/
  | level (p : Nat)
  | assignment
  /-- The arguments of a call up to the closing bracket; `moreArguments` are those after a first. -/
  | arguments | moreArguments
  /-- Bracketed dimensions behind the first. -/
  | dimensions
  | body | block
  /-- The lines of a block up to the closing bracket. -/
  | lines
  | statement | unit

/-- What a derivation means: a list of expressions or one of them. -/
abbrev Nonterminal.Meaning : Nonterminal → Type
  | arguments | moreArguments | dimensions | block | lines | unit => List Expr
  | _ => Expr

inductive Derivation (dialect : Dialect) : Nonterminal → Type where
  | name (text : String) (h : isName text = true) : Derivation dialect .primary
  | brackets (inner : Derivation dialect .assignment) : Derivation dialect .primary
  | lambda (h : dialect = .full) (parameters : Derivation dialect .arguments)
      (body : Derivation dialect .body) : Derivation dialect .primary
  | primary (operand : Derivation dialect .primary) : Derivation dialect .postfixed
  | suffixed (operand : Derivation dialect .postfixed) (op : SuffixOp) :
      Derivation dialect .postfixed
  | index (base : Derivation dialect .postfixed) (position : Derivation dialect .assignment) :
      Derivation dialect .postfixed
  | call (callee : Derivation dialect .postfixed) (list : Derivation dialect .arguments) :
      Derivation dialect .postfixed
  | access (base : Derivation dialect .postfixed) (op : AccessOp) (member : Identifier) :
      Derivation dialect .postfixed
  | postfixed (operand : Derivation dialect .postfixed) : Derivation dialect .unary
  | prefixed (op : PrefixOp) (operand : Derivation dialect .unary) : Derivation dialect .unary
  | single (elementType : TypeName)
      (h : dialect = .operators → isIdentifier elementType.text.toList = true) :
      Derivation dialect .unary
  | array (elementType : TypeName)
      (h : dialect = .operators → isIdentifier elementType.text.toList = true)
      (size : Derivation dialect .assignment) (sizes : Derivation dialect .dimensions) :
      Derivation dialect .unary
  | unary {p : Nat} (h : p = 13) (operand : Derivation dialect .unary) :
      Derivation dialect (.level p)
  | tighter {p : Nat} (h : p < 13) (operand : Derivation dialect (.level (p + 1))) :
      Derivation dialect (.level p)
  | binary {p : Nat} (op : BinaryOp) (h : op.spelling ∈ levelOperators p)
      (left : Derivation dialect (.level p)) (right : Derivation dialect (.level (p + 1))) :
      Derivation dialect (.level p)
  | operation (operand : Derivation dialect (.level 3)) : Derivation dialect .assignment
  | conditional (condition : Derivation dialect (.level 3))
      (thenBranch elseBranch : Derivation dialect .assignment) : Derivation dialect .assignment
  | assign (target : Derivation dialect (.level 3)) (value : Derivation dialect .assignment) :
      Derivation dialect .assignment
  | compound (op : BinaryOp) (h : op.spelling ∈ compoundAssignments)
      (target : Derivation dialect (.level 3)) (value : Derivation dialect .assignment) :
      Derivation dialect .assignment
  | noArgument : Derivation dialect .arguments
  | firstArgument (first : Derivation dialect .assignment)
      (rest : Derivation dialect .moreArguments) : Derivation dialect .arguments
  | lastArgument : Derivation dialect .moreArguments
  | nextArgument (next : Derivation dialect .assignment)
      (rest : Derivation dialect .moreArguments) : Derivation dialect .moreArguments
  | lastDimension : Derivation dialect .dimensions
  | nextDimension (next : Derivation dialect .assignment) (rest : Derivation dialect .dimensions) :
      Derivation dialect .dimensions
  | blockBody (inner : Derivation dialect .block) : Derivation dialect .body
  | bareReturnBody : Derivation dialect .body
  | returnBody (value : Derivation dialect .assignment) : Derivation dialect .body
  | emptyBlock : Derivation dialect .block
  | block (lines : Derivation dialect .lines) : Derivation dialect .block
  | lastLine : Derivation dialect .lines
  | nextLine (next : Derivation dialect .statement) (rest : Derivation dialect .lines) :
      Derivation dialect .lines
  | blockStatement (inner : Derivation dialect .block) : Derivation dialect .statement
  | bareReturn : Derivation dialect .statement
  | returning (value : Derivation dialect .assignment) : Derivation dialect .statement
  | expression (value : Derivation dialect .assignment) : Derivation dialect .statement
  | emptyUnit : Derivation dialect .unit
  | unitLine (first : Derivation dialect .statement) (rest : Derivation dialect .unit) :
      Derivation dialect .unit

namespace Derivation

variable {dialect : Dialect}

/-- The tokens that a derivation derives. -/
def yield : {n : Nonterminal} → Derivation dialect n → List Token
  | _, name text _ => [.word text]
  | _, brackets inner => .punct "(" :: (inner.yield ++ [.punct ")"])
  | _, lambda _ parameters body =>
    .punct "[" :: .punct "]" :: .punct "(" :: (parameters.yield ++ body.yield)
  | _, primary operand => operand.yield
  | _, suffixed operand op => operand.yield ++ [.punct op.spelling]
  | _, index base position => base.yield ++ .punct "[" :: (position.yield ++ [.punct "]"])
  | _, call callee list => callee.yield ++ .punct "(" :: list.yield
  | _, access base op member => base.yield ++ [.punct op.spelling, .word member.text]
  | _, postfixed operand => operand.yield
  | _, prefixed op operand => .punct op.spelling :: operand.yield
  | _, single elementType _ => [.word "new", .word elementType.text, .punct "(", .punct ")"]
  | _, array elementType _ size sizes =>
    .word "new" :: .word elementType.text :: .punct "[" ::
      (size.yield ++ .punct "]" :: sizes.yield)
  | _, unary _ operand => operand.yield
  | _, tighter _ operand => operand.yield
  | _, binary op _ left right => left.yield ++ .punct op.spelling :: right.yield
  | _, operation operand => operand.yield
  | _, conditional condition thenBranch elseBranch =>
    condition.yield ++ .punct "?" :: (thenBranch.yield ++ .punct ":" :: elseBranch.yield)
  | _, assign target value => target.yield ++ .punct "=" :: value.yield
  | _, compound op _ target value => target.yield ++ .punct op.spelling :: value.yield
  | _, noArgument | _, lastArgument => [.punct ")"]
  | _, firstArgument first rest => first.yield ++ rest.yield
  | _, nextArgument next rest => .punct "," :: (next.yield ++ rest.yield)
  | _, lastDimension => []
  | _, nextDimension next rest => .punct "[" :: (next.yield ++ .punct "]" :: rest.yield)
  | _, blockBody inner => inner.yield
  | _, bareReturnBody =>
    [.openBrace, .word "return", .punct ";", .closeBrace]
  | _, returnBody value =>
    .openBrace :: .word "return" :: (value.yield ++ [.punct ";", .closeBrace])
  | _, emptyBlock => [.openBrace, .closeBrace]
  | _, block lines => .openBrace :: lines.yield
  | _, lastLine => [.lineBreak, .closeBrace]
  | _, nextLine next rest => .lineBreak :: (next.yield ++ rest.yield)
  | _, blockStatement inner => inner.yield
  | _, bareReturn => [.word "return", .punct ";"]
  | _, returning value => .word "return" :: (value.yield ++ [.punct ";"])
  | _, expression value => value.yield ++ [.punct ";"]
  | _, emptyUnit => []
  | _, unitLine first rest => first.yield ++ .lineBreak :: rest.yield

/-- The expressions that a derivation stands for.  Round brackets leave no trace. -/
def meaning : {n : Nonterminal} → Derivation dialect n → n.Meaning
  | _, name text _ => .literal text
  | _, brackets inner => inner.meaning
  | _, lambda _ parameters body => .lambda body.meaning parameters.meaning
  | _, primary operand => operand.meaning
  | _, suffixed operand op => .suffixed op operand.meaning
  | _, index base position => .index base.meaning position.meaning
  | _, call callee list => .call callee.meaning list.meaning
  | _, access base op member => .access base.meaning op member
  | _, postfixed operand => operand.meaning
  | _, prefixed op operand => .prefixed op operand.meaning
  | _, single elementType _ => .allocation elementType []
  | _, array elementType _ size sizes => .allocation elementType (size.meaning :: sizes.meaning)
  | _, unary _ operand => operand.meaning
  | _, tighter _ operand => operand.meaning
  | _, binary op _ left right => .binary op left.meaning right.meaning
  | _, operation operand => operand.meaning
  | _, conditional condition thenBranch elseBranch =>
    .conditional condition.meaning thenBranch.meaning elseBranch.meaning
  | _, assign target value => .assign target.meaning value.meaning
  | _, compound op _ target value => .binary op target.meaning value.meaning
  | _, noArgument | _, lastArgument | _, lastDimension | _, emptyBlock | _, lastLine
  | _, emptyUnit => []
  | _, firstArgument first rest => first.meaning :: rest.meaning
  | _, nextArgument next rest => next.meaning :: rest.meaning
  | _, nextDimension next rest => next.meaning :: rest.meaning
  | _, blockBody inner => .block inner.meaning
  | _, bareReturnBody | _, bareReturn => .ret none
  | _, returnBody value => value.meaning
  | _, block lines => lines.meaning
  | _, nextLine next rest => next.meaning :: rest.meaning
  | _, blockStatement inner => .block inner.meaning
  | _, returning value => .ret (some value.meaning)
  | _, expression value => value.meaning
  | _, unitLine first rest => first.meaning :: rest.meaning

end Derivation

end CppTree
