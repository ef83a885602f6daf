import CppTree.Render.Binding
import CppTree.Tree

/-!
# Rendering

A renderer has a style and the depth of the block it is in.  `Renderer.visit` writes the C++ text of
an expression: operands get round brackets only where `Binding` demands them, a block puts each
statement on a line of its own, one level deeper than its brackets, and every statement but a block
ends in a semicolon.  While the statements of a block are written the renderer is one level deeper.
-/

namespace CppTree

/-- The choices that a rendering leaves open. -/
structure Style where
  /-- Blanks per level of nested blocks. -/
  indentWidth : Nat := 4
  /-- What stands in the capture brackets of every lambda. -/
  lambdaCapture : String := "&"
deriving DecidableEq, Inhabited

/-- A style and the block depth at which the next rendering starts. -/
structure Renderer where
  style : Style := {}
  depth : Nat := 0
deriving DecidableEq, Inhabited

/-- What ends a statement of a kind: nothing after a block, a semicolon after everything else. -/
def Kind.terminator : Kind → String
  | block => ""
  | _ => ";"

theorem Kind.terminator_eq (kind : Kind) :
    kind.terminator = if kind = .block then "" else ";" := by
  cases kind <;> rfl

/-! ## Texts put together -/

namespace Text

def parenthesized (text : String) : String :=
  "(" ++ text ++ ")"

def bracketed (text : String) : String :=
  "[" ++ text ++ "]"

def braced (text : String) : String :=
  String.singleton '{' ++ text ++ String.singleton '}'

/-- The text of an operand in a place that demands a binding strength. -/
def operand (demand binding : Nat) (text : String) : String :=
  if binding < demand then parenthesized text else text

/-- A prefix operator and the text of its operand.  A blank keeps them apart when the operand starts
with the character in which the operator ends, since `- -x` is not `--x`. -/
def prefixed (operator text : String) : String :=
  if operator.toList.getLast? = text.front? then operator ++ " " ++ text else operator ++ text

def listed (texts : List String) : String :=
  parenthesized (", ".intercalate texts)

/-- The body of a lambda in curly brackets: a block has them already, a return lacks the semicolon,
and any other expression is returned. -/
def lambdaBody : Kind → String → String
  | .block, text => text
  | .ret, text => braced (" " ++ text ++ "; ")
  | _, text => braced (" return " ++ text ++ "; ")

end Text

/-! ## Handlers -/

namespace Renderer

/-- The blanks in front of a line at the current depth. -/
def indentation (renderer : Renderer) : String :=
  "".pushn ' ' (renderer.style.indentWidth * renderer.depth)

/-- Goes one level deeper. -/
def enter : StateM Renderer Unit :=
  modify fun renderer => { renderer with depth := renderer.depth + 1 }

/-- Goes back to the level above. -/
def leave : StateM Renderer Unit :=
  modify fun renderer => { renderer with depth := renderer.depth - 1 }

mutual

/-- Writes an expression. -/
def visit : Expr → StateM Renderer String
  | .assign target value => do
    let left := Text.operand Binding.aboveConditional target.binding (← visit target)
    let right := Text.operand Binding.assignment value.binding (← visit value)
    return left ++ " = " ++ right
  | .binary op left right => do
    let leftText := Text.operand op.leftDemand left.binding (← visit left)
    let rightText := Text.operand op.rightDemand right.binding (← visit right)
    return leftText ++ " " ++ op.spelling ++ " " ++ rightText
  | .prefixed op operand => do
    let text := Text.operand Binding.unary operand.binding (← visit operand)
    return Text.prefixed op.spelling text
  | .suffixed op operand => do
    let text := Text.operand Binding.postfixed operand.binding (← visit operand)
    return text ++ op.spelling
  | .index base position => do
    let text := Text.operand Binding.postfixed base.binding (← visit base)
    return text ++ Text.bracketed (← visit position)
  | .call callee arguments => do
    let text := Text.operand Binding.postfixed callee.binding (← visit callee)
    return text ++ Text.listed (← visitAll arguments)
  | .lambda body parameters => do
    let parameterTexts ← visitAll parameters
    let head := Text.bracketed (← get).style.lambdaCapture ++ Text.listed parameterTexts
    return head ++ " " ++ Text.lambdaBody body.kind (← visit body)
  | .access base op member => do
    let text := Text.operand Binding.postfixed base.binding (← visit base)
    return text ++ op.spelling ++ member.text
  | .allocation elementType dimensions => do
    if dimensions.isEmpty then
      return "new " ++ elementType.text ++ "()"
    let sizes ← visitAll dimensions
    return "new " ++ elementType.text ++ String.join (sizes.map Text.bracketed)
  | .conditional condition thenBranch elseBranch => do
    let conditionText := Text.operand Binding.aboveConditional condition.binding (← visit condition)
    let thenText := Text.operand Binding.conditional thenBranch.binding (← visit thenBranch)
    let elseText := Text.operand Binding.conditional elseBranch.binding (← visit elseBranch)
    return conditionText ++ " ? " ++ thenText ++ " : " ++ elseText
  | .tuple elements => return "std::make_tuple" ++ Text.listed (← visitAll elements)
  | .ret none => return "return"
  | .ret (some value) => return "return " ++ (← visit value)
  | .block statements => do
    if statements.isEmpty then
      return "{}"
    enter
    let lines ← visitLines statements
    leave
    -- The closing bracket stands where the renderer is back at the level of the opening one.
    return Text.braced ("\n" ++ "\n".intercalate lines ++ "\n" ++ (← get).indentation)
  | .literal text => return text

/-- Writes expressions from the first to the last. -/
def visitAll : List Expr → StateM Renderer (List String)
  | [] => return []
  | e :: es => do
    let text ← visit e
    return text :: (← visitAll es)

/-- Writes the statements of a block, each as a line at the current depth. -/
def visitLines : List Expr → StateM Renderer (List String)
  | [] => return []
  | e :: es => do
    let text ← visit e
    let line := (← get).indentation ++ text ++ e.kind.terminator
    return line :: (← visitLines es)

end

/-- Writes the statements of a unit, each with the end of its line. -/
def visitUnit : List Expr → StateM Renderer String
  | [] => return ""
  | e :: es => do
    let text ← visit e
    return text ++ e.kind.terminator ++ "\n" ++ (← visitUnit es)

/-- Writes a tree.  A statement is written like its expression; what ends it belongs to the list in
which it stands. -/
def render (renderer : Renderer) : Tree → String × Renderer
  | .unit u => visitUnit u.statements renderer
  | .statement e | .expression e => visit e renderer

end Renderer

/-- The text of a tree in a style. -/
def Tree.text (style : Style) (tree : Tree) : String :=
  (Renderer.render ⟨style, 0⟩ tree).1

end CppTree
