/-!
# Documents

Text whose lines know their nesting level but not yet their indentation.  `Doc.print` writes a
document that starts at a given depth, with a given number of blanks per level; `Doc.first?` is the
first character of that text, and needs neither number.
-/

namespace CppTree

/-- A document.  Only `line` is laid out; the text in `text` is written as it stands, whatever
characters it holds. -/
inductive Doc where
  | nil
  | text (content : String)
  /-- Starts a new line at the level where it stands. -/
  | line
  /-- A document one level deeper. -/
  | nest (body : Doc)
  | append (before after : Doc)
deriving Inhabited

instance : Append Doc := ⟨Doc.append⟩

instance : Coe String Doc := ⟨Doc.text⟩

namespace Doc

/-- The text of a document that starts at a depth, with so many blanks to a level. -/
def print (width depth : Nat) : Doc → String
  | nil => ""
  | text content => content
  | line => "\n".pushn ' ' (width * depth)
  | nest body => body.print width (depth + 1)
  | append before after => before.print width depth ++ after.print width depth

/-- The first character of a document's text, if the text is not empty. -/
def first? : Doc → Option Char
  | nil => none
  | text content => content.front?
  | line => some '\n'
  | nest body => body.first?
  | append before after => before.first? <|> after.first?

def parenthesized (body : Doc) : Doc :=
  "(" ++ body ++ ")"

def bracketed (body : Doc) : Doc :=
  "[" ++ body ++ "]"

def braced (body : Doc) : Doc :=
  String.singleton '{' ++ body ++ String.singleton '}'

/-- The documents in order with a separator between neighbours. -/
def joined (separator : String) : List Doc → Doc
  | [] => nil
  | [last] => last
  | first :: second :: rest => first ++ separator ++ joined separator (second :: rest)

@[simp]
theorem print_nil (width depth : Nat) : nil.print width depth = "" := rfl

@[simp]
theorem print_text (width depth : Nat) (content : String) :
    (text content).print width depth = content := rfl

@[simp]
theorem print_nest (width depth : Nat) (body : Doc) :
    (nest body).print width depth = body.print width (depth + 1) := rfl

@[simp]
theorem print_append (width depth : Nat) (before after : Doc) :
    (before ++ after).print width depth = before.print width depth ++ after.print width depth := rfl

theorem toList_pushn (s : String) (c : Char) (n : Nat) :
    (s.pushn c n).toList = s.toList ++ List.replicate n c := by
  rw [String.pushn_eq_repeat_push]
  induction n with
  | zero => simp [Nat.repeat]
  | succ n ih => simp [Nat.repeat, ih, List.replicate_succ']

@[simp]
theorem toList_print_line (width depth : Nat) :
    (line.print width depth).toList = '\n' :: List.replicate (width * depth) ' ' := by
  simp [print, toList_pushn]

theorem toList_print_parenthesized (width depth : Nat) (body : Doc) :
    (body.parenthesized.print width depth).toList =
      ['('] ++ (body.print width depth).toList ++ [')'] := by
  simp [parenthesized, String.toList_append]

theorem toList_print_bracketed (width depth : Nat) (body : Doc) :
    (body.bracketed.print width depth).toList =
      ['['] ++ (body.print width depth).toList ++ [']'] := by
  simp [bracketed, String.toList_append]

theorem toList_print_braced (width depth : Nat) (body : Doc) :
    (body.braced.print width depth).toList =
      ['{'] ++ (body.print width depth).toList ++ ['}'] := by
  simp [braced, String.toList_append]

@[simp]
theorem first?_append (before after : Doc) :
    (before ++ after).first? = (before.first? <|> after.first?) := rfl

@[simp]
theorem first?_text (content : String) : (text content).first? = content.toList.head? :=
  String.front?_eq

@[simp]
theorem first?_parenthesized (body : Doc) : body.parenthesized.first? = some '(' := by
  simp [parenthesized]

@[simp]
theorem first?_bracketed (body : Doc) : body.bracketed.first? = some '[' := by
  simp [bracketed]

@[simp]
theorem first?_braced (body : Doc) : body.braced.first? = some '{' := by
  simp [braced]

/-- The first character does not depend on the layout. -/
theorem first?_eq_head? (width depth : Nat) (doc : Doc) :
    doc.first? = (doc.print width depth).toList.head? := by
  induction doc generalizing depth with
  | nil => simp [first?]
  | text content => simp [first?, String.front?_eq]
  | line => simp [first?]
  | nest body ih => simpa [first?] using ih (depth + 1)
  | append before after hbefore hafter =>
    show (before.first? <|> after.first?) =
      (before.print width depth ++ after.print width depth).toList.head?
    simp [hbefore depth, hafter depth, String.toList_append, List.head?_append, Option.orElse_eq_or]

end Doc

end CppTree
