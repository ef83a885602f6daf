import CppTree.Census
import CppTree.Render.Renderer
import CppTree.Workbench.Assembly

/-!
# The workbench

A workbench assembles trees bottom-up on a stack.  Beside the stack it keeps one unit that collects
statements, one renderer and one census, which serve all trees.  `Workbench.perform` does one step;
a rejected assembly has used up its parts.
-/

namespace CppTree

/-- The state between two steps.  The head of the stack is its top. -/
structure Workbench where
  stack : List Expr := []
  unit : CompilationUnit := {}
  renderer : Renderer := {}
  census : Census := {}
deriving DecidableEq, Inhabited

/-- One step on a workbench. -/
inductive Step where
  /-- Replaces the topmost expressions by the node built from them. -/
  | assemble (assembly : Assembly)
  /-- Puts a second copy of the top on the stack. -/
  | duplicate
  /-- Exchanges the topmost two expressions. -/
  | swap
  | drop
  /-- Compares the topmost two expressions. -/
  | compare
  | render
  /-- Lets the census walk the top. -/
  | walk
  /-- Moves the top to the end of the unit. -/
  | emit
  | renderUnit
  /-- Lets the census walk the unit. -/
  | walkUnit
  | newUnit
  /-- Starts a renderer of another style. -/
  | newRenderer (style : Style)
  | newCensus
deriving DecidableEq

/-- What a step leaves behind. -/
inductive Outcome where
  | done (workbench : Workbench)
  /-- The assembly met a fault; its parts are gone from the stack. -/
  | rejected (fault : Fault) (workbench : Workbench)
  /-- The stack holds too few expressions for the step. -/
  | tooFew
deriving DecidableEq

namespace Workbench

/-- Replaces the topmost expressions by the node that an assembly builds from them.  The part that
comes last in the node lies on top. -/
def assemble (assembly : Assembly) (workbench : Workbench) : Outcome :=
  let rest := { workbench with stack := workbench.stack.drop assembly.arity }
  match assembly.build? (workbench.stack.take assembly.arity).reverse with
  | some (.ok node) => .done { rest with stack := node :: rest.stack }
  | some (.error fault) => .rejected fault rest
  | none => .tooFew

/-- Does a step.  Rendering and comparing only look at the stack. -/
def perform (step : Step) (workbench : Workbench) : Outcome :=
  match step, workbench.stack with
  | .assemble assembly, _ => workbench.assemble assembly
  | .duplicate, top :: rest => .done { workbench with stack := top :: top :: rest }
  | .swap, top :: next :: rest => .done { workbench with stack := next :: top :: rest }
  | .drop, _ :: rest => .done { workbench with stack := rest }
  | .compare, _ :: _ :: _ => .done workbench
  | .render, _ :: _ => .done workbench
  | .walk, top :: _ => .done { workbench with census := workbench.census.walk (.expression top) }
  | .emit, top :: rest =>
    .done { workbench with stack := rest, unit := ⟨workbench.unit.statements ++ [top]⟩ }
  | .renderUnit, _ => .done workbench
  | .walkUnit, _ => .done { workbench with census := workbench.census.walk (.unit workbench.unit) }
  | .newUnit, _ => .done { workbench with unit := {} }
  | .newRenderer style, _ => .done { workbench with renderer := { style } }
  | .newCensus, _ => .done { workbench with census := {} }
  | _, _ => .tooFew

/-- Does a step so many times, or until it fails. -/
def performTimes (step : Step) : Nat → Workbench → Outcome
  | 0, workbench => .done workbench
  | times + 1, workbench =>
    match workbench.perform step with
    | .done next => performTimes step times next
    | outcome => outcome

end Workbench

end CppTree
