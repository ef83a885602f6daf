import CppTree.Proofs.Nodes
import CppTree.Proofs.Rendering.Handlers

/-!
# The lines of a rendering

A document is a list of pieces, texts and line breaks, and falls into lines at the breaks.  Each line
knows its level; the width and the depth of a rendering only decide how many blanks stand before it.
Main statements: `Doc.toList_print`, the text of a document is that of its pieces, and
`Piece.written_lines`, the text of pieces is that of the lines into which they fall.
-/

namespace CppTree

/-- A line without its indentation. -/
structure Line where
  /-- How many levels the line is deeper than where the rendering starts. -/
  level : Nat
  text : String
deriving DecidableEq

/-- The text of lines at a depth, with so many blanks to a level.  The first line is not indented. -/
def Line.written (width depth : Nat) : List Line → List Char
  | [] => []
  | first :: further =>
    first.text.toList ++ further.flatMap fun line =>
      '\n' :: (List.replicate (width * (depth + line.level)) ' ' ++ line.text.toList)

/-- The line as it is when it stands so many levels deeper. -/
def Line.raise (levels : Nat) (line : Line) : Line :=
  { line with level := levels + line.level }

/-- Lines with a text behind the last one. -/
def Line.ended (ending : String) : List Line → List Line
  | [] => []
  | [last] => [{ last with text := last.text ++ ending }]
  | line :: next :: rest => line :: Line.ended ending (next :: rest)

/-! ## Pieces -/

/-- A piece of a document: a text, or the start of a line at a level. -/
inductive Piece where
  | text (content : String)
  | newline (level : Nat)
deriving DecidableEq

namespace Piece

def raise (levels : Nat) : Piece → Piece
  | text content => text content
  | .newline level => .newline (levels + level)

def written (width depth : Nat) : Piece → List Char
  | text content => content.toList
  | .newline level => '\n' :: List.replicate (width * (depth + level)) ' '

/-- The lines into which pieces fall when the line before them is at a level and begins with a
text. -/
def lines (level : Nat) (begun : String) : List Piece → List Line
  | [] => [⟨level, begun⟩]
  | text content :: rest => lines level (begun ++ content) rest
  | .newline next :: rest => ⟨level, begun⟩ :: lines next "" rest

/-- The level of the last line. -/
def lastLevel (level : Nat) : List Piece → Nat
  | [] => level
  | text _ :: rest => lastLevel level rest
  | .newline next :: rest => lastLevel next rest

end Piece

/-- The pieces of a document that starts at a level. -/
def Doc.pieces (level : Nat) : Doc → List Piece
  | nil => []
  | text content => [.text content]
  | line => [.newline level]
  | nest body => body.pieces (level + 1)
  | append before after => before.pieces level ++ after.pieces level

/-- The pieces of the statements of a unit.  A unit is only rendered outermost, where the lines of
its statements all stand. -/
def CompilationUnit.pieces (capture : String) (unit : CompilationUnit) : List Piece :=
  unit.statements.flatMap fun e =>
    (e.doc capture).pieces 0 ++ [.text e.kind.terminator, .newline 0]

/-- The pieces of a tree that is rendered with a capture list. -/
def Tree.pieces (capture : String) : Tree → List Piece
  | unit u => u.pieces capture
  | statement e | expression e => (e.doc capture).pieces 0

/-- The lines of a tree that is rendered with a capture list. -/
def Tree.lines (capture : String) (tree : Tree) : List Line :=
  Piece.lines 0 "" (tree.pieces capture)

namespace Doc

@[simp]
theorem pieces_nil (level : Nat) : nil.pieces level = [] := rfl

@[simp]
theorem pieces_text (level : Nat) (content : String) :
    (text content).pieces level = [.text content] := rfl

@[simp]
theorem pieces_line (level : Nat) : line.pieces level = [.newline level] := rfl

@[simp]
theorem pieces_nest (level : Nat) (body : Doc) :
    (nest body).pieces level = body.pieces (level + 1) := rfl

@[simp]
theorem pieces_append (level : Nat) (before after : Doc) :
    (before ++ after).pieces level = before.pieces level ++ after.pieces level := rfl

theorem pieces_add (levels level : Nat) (doc : Doc) :
    doc.pieces (levels + level) = (doc.pieces level).map (Piece.raise levels) := by
  induction doc generalizing level with
  | nil => rfl
  | text content => rfl
  | line => rfl
  | nest body ih => exact ih (level + 1)
  | append before after hbefore hafter =>
    simp [pieces, hbefore level, hafter level]

theorem toList_print (width depth : Nat) (doc : Doc) (level : Nat) :
    (doc.print width (depth + level)).toList =
      (doc.pieces level).flatMap (Piece.written width depth) := by
  induction doc generalizing level with
  | nil => simp
  | text content => simp [Piece.written]
  | line => simp [Piece.written]
  | nest body ih => simpa [Nat.add_assoc] using ih (level + 1)
  | append before after hbefore hafter =>
    show (before.print width (depth + level) ++ after.print width (depth + level)).toList = _
    simp [pieces, String.toList_append, hbefore level, hafter level]

end Doc

/-! ## Lines of pieces -/

namespace Piece

theorem lines_eq_cons (level : Nat) (ps : List Piece) :
    ∃ text rest, ∀ begun, lines level begun ps = ⟨level, begun ++ text⟩ :: rest := by
  induction ps generalizing level with
  | nil => exact ⟨"", [], fun begun => by simp [lines]⟩
  | cons p ps ih =>
    cases p with
    | text content =>
      obtain ⟨text, rest, h⟩ := ih level
      exact ⟨content ++ text, rest, fun begun => by rw [lines, h, String.append_assoc]⟩
    | newline next =>
      exact ⟨"", lines next "" ps, fun begun => by simp [lines]⟩

/-- The text of pieces is that of the lines into which they fall. -/
theorem written_lines (width depth level : Nat) (begun : String) (ps : List Piece) :
    Line.written width depth (lines level begun ps) =
      begun.toList ++ ps.flatMap (written width depth) := by
  induction ps generalizing level begun with
  | nil => simp [lines, Line.written]
  | cons p ps ih =>
    cases p with
    | text content => simp [lines, ih, written, String.toList_append]
    | newline next =>
      have hrest := ih next ""
      obtain ⟨text, rest, h⟩ := lines_eq_cons next ps
      rw [h] at hrest
      rw [lines, h]
      simp only [Line.written, List.flatMap_cons, written] at hrest ⊢
      rw [List.cons_append, List.append_assoc, hrest]
      simp

theorem lines_append {level last : Nat} {begun head : String} {ps : List Piece} {before : List Line}
    (h : lines level begun ps = before ++ [⟨last, head⟩]) (qs : List Piece) :
    lines level begun (ps ++ qs) = before ++ lines last head qs := by
  induction ps generalizing level begun before with
  | nil =>
    rw [lines] at h
    obtain ⟨rfl, hlast⟩ := List.append_eq_singleton_iff.mp h.symm |>.resolve_right (by simp)
    cases hlast
    rfl
  | cons p ps ih =>
    cases p with
    | text content => exact ih h
    | newline next =>
      cases before with
      | nil =>
        obtain ⟨text, rest, hrest⟩ := lines_eq_cons next ps
        rw [lines, hrest] at h
        cases h
      | cons line before =>
        rw [lines, List.cons_append] at h
        obtain ⟨hline, hrest⟩ := List.cons.inj h
        rw [List.cons_append, lines, ih hrest, hline, List.cons_append]

theorem lines_append_newline (level : Nat) (begun : String) (ps : List Piece) (next : Nat)
    (qs : List Piece) :
    lines level begun (ps ++ .newline next :: qs) = lines level begun ps ++ lines next "" qs := by
  induction ps generalizing level begun with
  | nil => rfl
  | cons p ps ih =>
    cases p with
    | text content => exact ih level (begun ++ content)
    | newline other => rw [List.cons_append, lines, ih, lines, List.cons_append]

theorem lines_append_text (level : Nat) (begun : String) (ps : List Piece) (content : String) :
    lines level begun (ps ++ [text content]) = Line.ended content (lines level begun ps) := by
  induction ps generalizing level begun with
  | nil => rfl
  | cons p ps ih =>
    cases p with
    | text other => exact ih level (begun ++ other)
    | newline next =>
      obtain ⟨head, rest, h⟩ := lines_eq_cons next ps
      have hrest := ih next ""
      rw [h] at hrest
      rw [List.cons_append, lines, lines, hrest, h, Line.ended]

theorem lines_raise (levels level : Nat) (begun : String) (ps : List Piece) :
    lines (levels + level) begun (ps.map (raise levels)) =
      (lines level begun ps).map (Line.raise levels) := by
  induction ps generalizing level begun with
  | nil => rfl
  | cons p ps ih =>
    cases p with
    | text content => exact ih level (begun ++ content)
    | newline next =>
      rw [List.map_cons, raise, lines, ih next "", lines, List.map_cons]
      rfl

theorem newline_not_mem_lines {level : Nat} {begun : String} {ps : List Piece}
    (hbegun : '\n' ∉ begun.toList) (hps : ∀ content, text content ∈ ps → '\n' ∉ content.toList) :
    ∀ line ∈ lines level begun ps, '\n' ∉ line.text.toList := by
  induction ps generalizing level begun with
  | nil => simpa [lines] using hbegun
  | cons p ps ih =>
    have hps' := fun content h => hps content (List.mem_cons_of_mem p h)
    cases p with
    | text content =>
      refine ih ?_ hps'
      simp [String.toList_append, hbegun, hps content (by simp)]
    | newline next =>
      intro line hline
      rcases List.mem_cons.mp hline with rfl | hline
      · exact hbegun
      · exact ih (by simp) hps' line hline

end Piece

theorem Line.ended_raise (levels : Nat) (ending : String) (lines : List Line) :
    Line.ended ending (lines.map (Line.raise levels)) =
      (Line.ended ending lines).map (Line.raise levels) := by
  induction lines with
  | nil => rfl
  | cons line rest ih =>
    cases rest with
    | nil => rfl
    | cons next rest =>
      exact congrArg (Line.raise levels line :: ·) ih

/-- Characters with so many blanks behind every line break. -/
def indented (blanks : Nat) (cs : List Char) : List Char :=
  cs.flatMap fun c => if c = '\n' then c :: List.replicate blanks ' ' else [c]

theorem indented_append (blanks : Nat) (cs ds : List Char) :
    indented blanks (cs ++ ds) = indented blanks cs ++ indented blanks ds := by
  simp [indented]

theorem indented_of_not_mem {blanks : Nat} {cs : List Char} (h : '\n' ∉ cs) :
    indented blanks cs = cs := by
  induction cs with
  | nil => rfl
  | cons c cs ih =>
    rw [List.mem_cons, not_or] at h
    rw [indented, List.flatMap_cons, if_neg (Ne.symm h.1)]
    exact congrArg (c :: ·) (ih h.2)

theorem Line.written_eq_indented (width depth : Nat) {lines : List Line}
    (h : ∀ line ∈ lines, '\n' ∉ line.text.toList) :
    Line.written width depth lines = indented (width * depth) (Line.written width 0 lines) := by
  cases lines with
  | nil => rfl
  | cons first further =>
    rw [Line.written, Line.written, indented_append, indented_of_not_mem (h first (by simp))]
    -- The first lines agree; every further one gets the blanks behind its line break.
    congr 1
    have hfurther := fun line hline => h line (List.mem_cons_of_mem first hline)
    clear h
    induction further with
    | nil => rfl
    | cons line rest ih =>
      have hrest := ih fun other hother => hfurther other (List.mem_cons_of_mem line hother)
      have hblanks : '\n' ∉ List.replicate (width * (0 + line.level)) ' ' := by
        simp [List.mem_replicate]
      have hbreak (blanks : Nat) (cs : List Char) :
          indented blanks ('\n' :: cs) =
            '\n' :: (List.replicate blanks ' ' ++ indented blanks cs) := by
        simp [indented]
      rw [List.flatMap_cons, List.flatMap_cons, indented_append, ← hrest, hbreak, indented_append,
        indented_of_not_mem hblanks, indented_of_not_mem (hfurther line (by simp)),
        ← List.append_assoc (List.replicate _ _), List.replicate_append_replicate, Nat.zero_add,
        Nat.mul_add]

end CppTree
