import CppTree.Proofs.Rendering.Sequence
import CppTree.Workbench.Report
import Mathlib.Logic.Relation

/-!
# Sessions

What the steps of a session leave alone.  A report changes nothing (`Workbench.report_snd`), so a
session is a run of its steps with a report read off behind each of them.  Main statements:
`Workbench.session_append`, later steps leave earlier entries as they are;
`Workbench.render_after`, whatever was done before, a text is the one that a new renderer gives;
`Workbench.session_unobserved`, steps that only look at the workbench can be left out of a session
without a change in the other entries; `Workbench.session_withoutTexts`, asking for texts changes
nothing but the texts.
-/

namespace CppTree

/-- The workbench that a step leaves, if there were enough expressions for it. -/
def Outcome.workbench? : Outcome → Option Workbench
  | done workbench | rejected _ workbench => some workbench
  | tooFew => none

/-- Whether a step only looks at the workbench. -/
def Step.observes : Step → Bool
  | compare | render | renderUnit => true
  | _ => false

/-- A report without the text that comes with the top of the stack on request. -/
def Report.withoutText : Report → Report
  | top kind _ => top kind none
  | report => report

def Entry.withoutText (entry : Entry) : Entry :=
  { entry with report := entry.report.withoutText }

/-- What one step can make of a workbench: it may change the stack, record a tree in the census, add
a statement to the unit, or put a new unit, renderer or census in place of the old one. -/
inductive Workbench.Change (workbench : Workbench) : Workbench → Prop where
  | restacked (stack : List Expr) : Change workbench { workbench with stack }
  | walked (tree : Tree) :
      Change workbench { workbench with census := workbench.census.walk tree }
  | emitted (stack : List Expr) (e : Expr) :
      Change workbench { workbench with stack, unit := ⟨workbench.unit.statements ++ [e]⟩ }
  | newUnit : Change workbench { workbench with unit := {} }
  | newRenderer (style : Style) : Change workbench { workbench with renderer := { style } }
  | newCensus : Change workbench { workbench with census := {} }

namespace Workbench

variable {step : Step} {workbench after : Workbench}

/-! ## Single steps -/

theorem assemble_change {assembly : Assembly}
    (h : (workbench.assemble assembly).workbench? = some after) : workbench.Change after := by
  unfold assemble at h
  split at h
  · cases h
    exact .restacked _
  · cases h
    exact .restacked _
  · cases h

theorem perform_change (h : (workbench.perform step).workbench? = some after) :
    workbench.Change after := by
  unfold perform at h
  split at h
  · exact assemble_change h
  all_goals cases h
  · exact .restacked _
  · exact .restacked _
  · exact .restacked _
  · exact .restacked workbench.stack
  · exact .restacked workbench.stack
  · exact .walked _
  · exact .emitted _ _
  · exact .restacked workbench.stack
  · exact .walked _
  · exact .newUnit
  · exact .newRenderer _
  · exact .newCensus

/-- A new renderer starts outermost, and no other step touches the depth. -/
theorem Change.depth_eq (h : workbench.Change after) (hdepth : workbench.renderer.depth = 0) :
    after.renderer.depth = 0 := by
  cases h with
  | newRenderer style => rfl
  | _ => exact hdepth

/-! ## Reports -/

/-- Rendering on a workbench leaves it as it is. -/
theorem render_eq (workbench : Workbench) (tree : Tree) :
    workbench.render tree = ((workbench.renderer.render tree).1, workbench) := by
  show ((workbench.renderer.render tree).1,
    { workbench with renderer := (workbench.renderer.render tree).2 }) = _
  rw [Renderer.render_snd]

theorem reportTop_snd {texts : Bool} {report : Report}
    (h : workbench.reportTop texts = some (report, after)) : after = workbench := by
  simp only [reportTop, render_eq] at h
  split at h
  · cases h
  · split at h
    · cases h
      rfl
    · cases h
      rfl

/-- A report tells about the workbench and leaves it as it is, also where it renders. -/
theorem report_snd {texts : Bool} {report : Report}
    (h : workbench.report texts step = some (report, after)) : after = workbench := by
  simp only [Workbench.report, render_eq] at h
  split at h
  · exact reportTop_snd h
  · exact reportTop_snd h
  · exact reportTop_snd h
  · cases h
    rfl
  · cases h
    rfl
  · cases h
    rfl
  · obtain ⟨last, -, h⟩ := Option.map_eq_some_iff.mp h
    cases h
    rfl
  all_goals cases h
  all_goals rfl

theorem isSome_reportTop (texts : Bool) (h : workbench.stack ≠ []) :
    (workbench.reportTop texts).isSome := by
  unfold reportTop
  split
  · contradiction
  · cases texts <;> rfl

theorem stack_ne_nil_of_assemble {assembly : Assembly}
    (h : workbench.assemble assembly = .done after) : after.stack ≠ [] := by
  unfold assemble at h
  split at h
  · cases h
    exact List.cons_ne_nil _ _
  · cases h
  · cases h

/-- Behind a step that was done there is always something to report. -/
theorem isSome_report (texts : Bool) (h : workbench.perform step = .done after) :
    (after.report texts step).isSome := by
  unfold perform at h
  split at h
  · exact isSome_reportTop texts (stack_ne_nil_of_assemble h)
  all_goals cases h
  · cases texts <;> rfl
  · cases texts <;> rfl
  · rfl
  · next hstack => simp [Workbench.report, hstack]
  · next hstack => simp [Workbench.report, hstack]
  · next hstack => simp [Workbench.report, hstack]
  · simp [Workbench.report]
  all_goals rfl

/-! ## Repeated steps -/

variable {times : Nat}

/-- What a repeated step does it does one change at a time. -/
theorem performTimes_changes (h : (workbench.performTimes step times).workbench? = some after) :
    Relation.ReflTransGen Change workbench after := by
  induction times generalizing workbench with
  | zero =>
    cases h
    exact .refl
  | succ times ih =>
    rw [performTimes] at h
    split at h
    · next middle hmiddle =>
      have hchange : workbench.Change middle := perform_change (by rw [hmiddle]; rfl)
      exact .head hchange (ih h)
    · exact .single (perform_change h)

theorem exists_last_perform (h : workbench.performTimes step (times + 1) = .done after) :
    ∃ before : Workbench, before.perform step = .done after := by
  induction times generalizing workbench with
  | zero =>
    rw [performTimes] at h
    split at h
    · next middle hmiddle =>
      cases h
      exact ⟨workbench, hmiddle⟩
    · exact ⟨workbench, h⟩
  | succ times ih =>
    rw [performTimes] at h
    split at h
    · exact ih h
    · exact ⟨workbench, h⟩

/-- A step that is done at least once is answered unless the stack is too short for it. -/
theorem isSome_answer_iff (texts : Bool) :
    (workbench.answer texts step (times + 1)).isSome ↔
      workbench.performTimes step (times + 1) ≠ .tooFew := by
  unfold answer
  cases hdone : workbench.performTimes step (times + 1) with
  | done after =>
    obtain ⟨before, hlast⟩ := exists_last_perform hdone
    obtain ⟨told, htold⟩ := Option.isSome_iff_exists.mp (isSome_report texts hlast)
    simp [htold]
  | rejected fault after => simp
  | tooFew => simp

/-- The workbench behind an answer is the one that the steps left. -/
theorem workbench?_of_answer {texts : Bool} {entry : Entry}
    (h : workbench.answer texts step times = some (entry, after)) :
    (workbench.performTimes step times).workbench? = some after := by
  unfold answer at h
  split at h
  · next done hdone =>
    obtain ⟨⟨told, same⟩, htold, h⟩ := Option.bind_eq_some_iff.mp h
    rw [report_snd htold] at h
    cases h
    rw [hdone]
    rfl
  · next fault rejected hrejected =>
    cases h
    rw [hrejected]
    rfl
  · cases h

/-! ## Runs -/

/-- The workbench behind all steps of a session. -/
def resume : List (Step × Nat) → Workbench → Option Workbench
  | [], workbench => some workbench
  | (step, times) :: steps, workbench =>
    (workbench.performTimes step times).workbench?.bind (resume steps)

variable {steps : List (Step × Nat)} {texts : Bool}

theorem resume_changes (h : resume steps workbench = some after) :
    Relation.ReflTransGen Change workbench after := by
  induction steps generalizing workbench with
  | nil =>
    cases h
    exact .refl
  | cons first steps ih =>
    obtain ⟨middle, hmiddle, h⟩ := Option.bind_eq_some_iff.mp h
    exact (performTimes_changes hmiddle).trans (ih h)

/-- A renderer that starts outermost is outermost behind every step. -/
theorem depth_of_changes (h : Relation.ReflTransGen Change workbench after)
    (hdepth : workbench.renderer.depth = 0) : after.renderer.depth = 0 := by
  induction h with
  | refl => exact hdepth
  | tail _ hchange ih => exact hchange.depth_eq ih

/-- Whatever a session has done to a workbench, its renderer writes every tree as a new renderer of
the same style would, and the workbench is not changed by that. -/
theorem render_after (hdepth : workbench.renderer.depth = 0)
    (h : resume steps workbench = some after) (tree : Tree) :
    after.render tree = (tree.text after.renderer.style, after) := by
  have hafter := depth_of_changes (resume_changes h) hdepth
  have hrenderer : after.renderer = ⟨after.renderer.style, 0⟩ := by rw [← hafter]
  rw [render_eq, hrenderer]
  rfl

/-- A session goes on where its first part ended, and the entries of that part stay as they are. -/
theorem session_append (more : List (Step × Nat)) :
    session texts (steps ++ more) workbench = (do
      let entries ← session texts steps workbench
      let after ← resume steps workbench
      return entries ++ (← session texts more after)) := by
  induction steps generalizing workbench with
  | nil => simp [session, resume]
  | cons first steps ih =>
    obtain ⟨step, times⟩ := first
    cases hanswer : workbench.answer texts step times with
    | none => simp [session, hanswer]
    | some answered =>
      obtain ⟨entry, middle⟩ := answered
      simp [session, resume, hanswer, workbench?_of_answer hanswer, ih, Option.bind_assoc]

/-! ## Steps that only look -/

theorem eq_of_perform_observes (hstep : step.observes = true)
    (h : (workbench.perform step).workbench? = some after) : after = workbench := by
  rcases hstack : workbench.stack with _ | ⟨top, _ | ⟨next, rest⟩⟩
  all_goals cases step with
    | compare | render | renderUnit =>
      simp only [perform, hstack, Outcome.workbench?, Option.some.injEq, reduceCtorEq] at h
      try exact h.symm
    | _ => cases hstep

theorem eq_of_performTimes_observes (hstep : step.observes = true)
    (h : (workbench.performTimes step times).workbench? = some after) : after = workbench := by
  induction times generalizing workbench with
  | zero =>
    cases h
    rfl
  | succ times ih =>
    rw [performTimes] at h
    split at h
    · next middle hmiddle =>
      have hsame : middle = workbench := eq_of_perform_observes hstep (by rw [hmiddle]; rfl)
      rw [ih h, hsame]
    · exact eq_of_perform_observes hstep h

/-- Leaving out the steps that only look leaves all other entries of a session as they are. -/
theorem session_unobserved {entries : List Entry}
    (h : session texts steps workbench = some entries) :
    session texts (steps.filter fun step => !step.1.observes) workbench =
      some (((steps.zip entries).filter fun p => !p.1.1.observes).map Prod.snd) := by
  induction steps generalizing workbench entries with
  | nil =>
    cases h
    rfl
  | cons first steps ih =>
    obtain ⟨step, times⟩ := first
    obtain ⟨⟨entry, middle⟩, hanswer, h⟩ := Option.bind_eq_some_iff.mp h
    obtain ⟨rest, hrest, h⟩ := Option.bind_eq_some_iff.mp h
    cases h
    have hrest := ih hrest
    by_cases hobserves : step.observes = true
    · -- The step left the workbench as it was.
      have hsame := eq_of_performTimes_observes hobserves (workbench?_of_answer hanswer)
      rw [hsame] at hrest
      simpa [hobserves] using hrest
    · simp [hobserves, session, hanswer, hrest]

/-! ## Texts on request -/

theorem reportTop_withoutText :
    workbench.reportTop false =
      (workbench.reportTop true).map fun told => (told.1.withoutText, told.2) := by
  simp only [reportTop, render_eq]
  split
  · rfl
  · rfl

theorem report_withoutText :
    workbench.report false step =
      (workbench.report true step).map fun told => (told.1.withoutText, told.2) := by
  simp only [Workbench.report, render_eq, reportTop_withoutText]
  split
  all_goals try rfl
  -- The report on an emitted statement is made from the statement; it has no text.
  simp [Function.comp_def, Report.withoutText]

theorem answer_withoutText :
    workbench.answer false step times =
      (workbench.answer true step times).map fun told => (told.1.withoutText, told.2) := by
  unfold answer
  split
  · next done hdone =>
    rw [report_withoutText]
    cases done.report true step <;> rfl
  · rfl
  · rfl

/-- A session with texts and one without differ in the texts behind single steps only. -/
theorem session_withoutTexts :
    session false steps workbench =
      (session true steps workbench).map (List.map Entry.withoutText) := by
  induction steps generalizing workbench with
  | nil => rfl
  | cons first steps ih =>
    obtain ⟨step, times⟩ := first
    rw [session, session, answer_withoutText]
    cases workbench.answer true step times with
    | none => rfl
    | some answered =>
      simp only [Option.map_some, Option.bind_eq_bind, Option.bind_some, ih]
      cases session true steps answered.2 <;> rfl

end Workbench

end CppTree
