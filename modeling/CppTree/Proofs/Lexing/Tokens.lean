import CppTree.Proofs.Lexing.Scan
import CppTree.Proofs.Nodes
import CppTree.Proofs.Rendering.Handlers

/-!
# The tokens of a tree

What a tree is made of, token by token: the spelling of each operator, the brackets, commas,
semicolons and keywords around its parts, the names of members and types, and the tokens of each
literal.  The brackets around an operand follow the binding strengths of the layout.
-/

namespace CppTree

namespace Token

def parenthesized (ts : List Token) : List Token :=
  .punct "(" :: (ts ++ [.punct ")"])

def bracketed (ts : List Token) : List Token :=
  .punct "[" :: (ts ++ [.punct "]"])

def braced (ts : List Token) : List Token :=
  .openBrace :: (ts ++ [.closeBrace])

def operand (demand binding : Nat) (ts : List Token) : List Token :=
  if binding < demand then parenthesized ts else ts

def commaSeparated : List (List Token) → List Token
  | [] => []
  | first :: rest => first ++ rest.flatMap fun ts => .punct "," :: ts

/-- The body of a lambda: a block as it is, a return with a semicolon, anything else returned. -/
def lambdaBody : Kind → List Token → List Token
  | .block, body => body
  | .ret, body => braced (body ++ [.punct ";"])
  | _, body => braced (.word "return" :: (body ++ [.punct ";"]))

end Token

def Kind.terminatorTokens : Kind → List Token
  | block => []
  | _ => [.punct ";"]

/-- What a capture list is read as. -/
def Reading.captures (capture : String) : Reading → List Token
  | .plain => lex capture.toList
  | .rendered _ => []

open Token in
mutual

/-- The tokens of an expression rendered with a capture list. -/
def Expr.tokens (reading : Reading) (capture : String) : Expr → List Token
  | .assign target value =>
    operand Binding.aboveConditional target.binding (target.tokens reading capture) ++
      .punct "=" :: operand Binding.assignment value.binding (value.tokens reading capture)
  | .binary op left right =>
    operand op.leftDemand left.binding (left.tokens reading capture) ++
      .punct op.spelling :: operand op.rightDemand right.binding (right.tokens reading capture)
  | .prefixed op operand =>
    .punct op.spelling ::
      Token.operand Binding.unary operand.binding (operand.tokens reading capture)
  | .suffixed op operand =>
    Token.operand Binding.postfixed operand.binding (operand.tokens reading capture) ++
      [.punct op.spelling]
  | .index base position =>
    operand Binding.postfixed base.binding (base.tokens reading capture) ++
      bracketed (position.tokens reading capture)
  | .call callee arguments =>
    operand Binding.postfixed callee.binding (callee.tokens reading capture) ++
      parenthesized (commaSeparated (Expr.tokensOf reading capture arguments))
  | .lambda body parameters =>
    bracketed (reading.captures capture) ++
      parenthesized (commaSeparated (Expr.tokensOf reading capture parameters)) ++
        lambdaBody body.kind (body.tokens reading capture)
  | .access base op member =>
    operand Binding.postfixed base.binding (base.tokens reading capture) ++
      [.punct op.spelling, .word member.text]
  | .allocation elementType dimensions =>
    .word "new" :: .word elementType.text ::
      if dimensions.isEmpty then parenthesized []
      else (Expr.tokensOf reading capture dimensions).flatMap bracketed
  | .conditional condition thenBranch elseBranch =>
    operand Binding.aboveConditional condition.binding (condition.tokens reading capture) ++
      .punct "?" ::
        (operand Binding.conditional thenBranch.binding (thenBranch.tokens reading capture) ++
          .punct ":" ::
            operand Binding.conditional elseBranch.binding (elseBranch.tokens reading capture))
  | .tuple elements =>
    .word "std" :: .punct "::" :: .word "make_tuple" ::
      parenthesized (commaSeparated (Expr.tokensOf reading capture elements))
  | .ret none => [.word "return"]
  | .ret (some value) => .word "return" :: value.tokens reading capture
  | .block statements =>
    braced (if statements.isEmpty then []
      else Expr.tokenLines reading capture statements ++ reading.lineBreak)
  | .literal text => lex text.toList

def Expr.tokensOf (reading : Reading) (capture : String) : List Expr → List (List Token)
  | [] => []
  | e :: es => e.tokens reading capture :: Expr.tokensOf reading capture es

/-- The statements of a block, each behind a line break. -/
def Expr.tokenLines (reading : Reading) (capture : String) : List Expr → List Token
  | [] => []
  | e :: es =>
    reading.lineBreak ++ (e.tokens reading capture ++ e.kind.terminatorTokens) ++
      Expr.tokenLines reading capture es

end

@[simp]
theorem Expr.tokensOf_eq_map (reading : Reading) (capture : String) (es : List Expr) :
    Expr.tokensOf reading capture es = es.map (Expr.tokens reading capture) := by
  induction es with
  | nil => simp [Expr.tokensOf]
  | cons e es ih => simp [Expr.tokensOf, ih]

def CompilationUnit.tokens (reading : Reading) (capture : String) (unit : CompilationUnit) :
    List Token :=
  unit.statements.flatMap fun e =>
    e.tokens reading capture ++ e.kind.terminatorTokens ++ reading.lineBreak

def Tree.tokens (reading : Reading) (capture : String) : Tree → List Token
  | unit u => u.tokens reading capture
  | statement e | expression e => e.tokens reading capture

/-- Whether the characters spell an identifier, possibly behind one sign. -/
def isSignedIdentifier : List Char → Bool
  | [] => false
  | c :: cs => isIdentifier (c :: cs) || ['-', '+', '!', '~', '*', '&'].contains c && isIdentifier cs

/-- Whether a text is an identifier that is no keyword of expressions. -/
def isName (text : String) : Bool :=
  isIdentifier text.toList && text != "new" && text != "return"

/-- Whether an expression has a value: returns and blocks are only executed. -/
def Expr.isValue (e : Expr) : Bool :=
  e.kind != .ret && e.kind != .block

/-- The parts of an expression that have to have a value: not the statements of a block, nor the
body of a lambda. -/
def Expr.operands : Expr → List Expr
  | lambda _ parameters => parameters
  | block _ => []
  | e => e.parts

theorem Expr.mem_parts_of_operands {e part : Expr} (h : part ∈ e.operands) : part ∈ e.parts := by
  cases e with
  | lambda body parameters => exact List.mem_cons_of_mem body h
  | block => cases h
  | _ => exact h

/-- Whether a node spells its texts as single tokens, a literal possibly behind a sign. -/
def Expr.isPlain : Expr → Bool
  | literal text => isSignedIdentifier text.toList
  | allocation elementType _ => isIdentifier elementType.text.toList
  | _ => true

/-- Whether the texts of a node can be told apart from what surrounds them: literals are names, and
element types have no square brackets. -/
def Expr.isDelimited : Expr → Bool
  | literal text => isName text
  | allocation elementType _ => !elementType.text.toList.contains '['
  | _ => true

/-- Whether a node is put together as in C++: its texts are delimited, and whatever stands in the
place of a value has one. -/
def Expr.isProper (e : Expr) : Bool :=
  e.isDelimited && e.operands.all isValue

end CppTree
