import CppTree.Workbench.Basic

/-!
# Reports

What a workbench tells after each step of a session.  A report is read off the state that the step
left behind, so a repeated step is reported once.
-/

namespace CppTree

inductive Report where
  /-- The kind of the expression now on top, and its text in a session with texts. -/
  | top (kind : Kind) (text : Option String)
  | rejected (fault : Fault)
  | acknowledged
  | compared (equal : Bool)
  | rendered (text : String)
  /-- The kinds that the walk met, those that no walk has met, and how many all walks have met. -/
  | walked (added : List Kind) (missing : List Kind) (total : Nat)
  /-- The kind of the statement, and the number of statements in the unit. -/
  | emitted (kind : Kind) (statements : Nat)
  | cleared (missing : List Kind)
deriving DecidableEq

/-- A report with the height of the stack after the step. -/
structure Entry where
  report : Report
  height : Nat
deriving DecidableEq

namespace Workbench

/-- Renders a tree with the workbench's renderer. -/
def render (workbench : Workbench) (tree : Tree) : String × Workbench :=
  let (text, renderer) := workbench.renderer.render tree
  (text, { workbench with renderer })

/-- Reports the top of the stack, with its text if texts are wanted. -/
def reportTop (texts : Bool) (workbench : Workbench) : Option (Report × Workbench) :=
  match workbench.stack with
  | [] => none
  | top :: _ =>
    if texts then
      let (text, workbench) := workbench.render (.expression top)
      some (.top top.kind (some text), workbench)
    else some (.top top.kind none, workbench)

/-- Reports a walk over a tree that the census has just made. -/
def reportWalk (workbench : Workbench) (tree : Tree) : Report :=
  .walked (Census.kindsOf tree).toList workbench.census.missing workbench.census.kinds.size

/-- Reports a step from the state it left behind; `none` if the step cannot have left that state. -/
def report (texts : Bool) (step : Step) (workbench : Workbench) : Option (Report × Workbench) :=
  match step, workbench.stack with
  | .assemble _, _ | .duplicate, _ | .swap, _ => workbench.reportTop texts
  | .compare, top :: next :: _ => some (.compared (next == top), workbench)
  | .render, top :: _ =>
    let (text, workbench) := workbench.render (.expression top)
    some (.rendered text, workbench)
  | .walk, top :: _ => some (workbench.reportWalk (.expression top), workbench)
  | .emit, _ =>
    workbench.unit.statements.getLast?.map fun last =>
      (.emitted last.kind workbench.unit.statements.length, workbench)
  | .renderUnit, _ =>
    let (text, workbench) := workbench.render (.unit workbench.unit)
    some (.rendered text, workbench)
  | .walkUnit, _ => some (workbench.reportWalk (.unit workbench.unit), workbench)
  | .newCensus, _ => some (.cleared workbench.census.missing, workbench)
  | .drop, _ | .newUnit, _ | .newRenderer _, _ => some (.acknowledged, workbench)
  | _, _ => none

/-- Does a step so many times and reports the last one; `none` if the stack is too short for it. -/
def answer (texts : Bool) (step : Step) (times : Nat) (workbench : Workbench) :
    Option (Entry × Workbench) :=
  match workbench.performTimes step times with
  | .done after => do
    let (report, after) ← after.report texts step
    return (⟨report, after.stack.length⟩, after)
  | .rejected fault after => some (⟨.rejected fault, after.stack.length⟩, after)
  | .tooFew => none

/-- The entries of a session, one for each step with its number of repetitions.  A rejected assembly
does not end the session. -/
def session (texts : Bool) : List (Step × Nat) → Workbench → Option (List Entry)
  | [], _ => some []
  | (step, times) :: steps, workbench => do
    let (entry, after) ← workbench.answer texts step times
    return entry :: (← session texts steps after)

end Workbench

end CppTree
