/-!
# Forms of inspected values

How inspection writes a value down: a constructor around its content, a record with named fields, a
list, and a quoted text.
-/

namespace CppTree
namespace Inspect

/-- A constructor with one unnamed part. -/
def applied (name content : String) : String :=
  name ++ "(" ++ content ++ ")"

/-- A constructor with named fields. -/
def record (name : String) (fields : List (String × String)) : String :=
  let shown := fields.map fun field => field.1 ++ ": " ++ field.2
  name ++ " " ++ String.singleton '{' ++ " " ++ ", ".intercalate shown ++ " " ++
    String.singleton '}'

/-- A list between square brackets. -/
def listed (items : List String) : String :=
  "[" ++ ", ".intercalate items ++ "]"

/-- Whether a character is a control character: below the blank, or from delete to U+009F. -/
def isControl (c : Char) : Bool :=
  c.toNat < 0x20 || (0x7f ≤ c.toNat && c.toNat ≤ 0x9f)

/-- The characters that have a letter of their own behind a backslash, with that letter. -/
def letters : List (Char × Char) :=
  [('"', '"'), ('\\', '\\'), ('\n', 'n'), ('\r', 'r'), ('\t', 't'), ('\x00', '0')]

/-- A character inside a quoted text.  Hidden characters without a letter of their own are written
as their code point in lower-case hexadecimal digits. -/
def escaped (hidden : Char → Bool) (c : Char) : List Char :=
  match letters.lookup c with
  | some letter => ['\\', letter]
  | none => if hidden c then ['\\', 'u', '{'] ++ Nat.toDigits 16 c.toNat ++ ['}'] else [c]

/-- A text between double quotes. -/
def quoted (hidden : Char → Bool) (text : String) : String :=
  "\"" ++ String.ofList (text.toList.flatMap (escaped hidden)) ++ "\""

end Inspect
end CppTree
