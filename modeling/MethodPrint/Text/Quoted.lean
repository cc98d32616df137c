import MethodPrint.Text.Numeral
import MethodPrint.Text.Unprintable

/-!
# Quoted display of a text

The form in which features and error messages show a text: between double quotes, with the quote,
the backslash and everything that has no printed form of its own written as an escape.
-/

namespace MethodPrint.Text

/-- The characters that stand for one character between quotes. -/
def displayChar (c : Char) : List Char :=
  match c with
  | '"' => ['\\', '"']
  | '\\' => ['\\', '\\']
  | '\x00' => ['\\', '0']
  | '\n' => ['\\', 'n']
  | '\r' => ['\\', 'r']
  | '\t' => ['\\', 't']
  | c =>
    if isUnprintable c || isCombining c then
      ['\\', 'u', '{'] ++ hex c.toNat ++ ['}']
    else [c]

/-- A text between double quotes, with escapes. -/
def display (s : String) : String :=
  String.ofList ('"' :: s.toList.flatMap displayChar ++ ['"'])

/-- A list of texts in brackets, each between double quotes. -/
def displayList (texts : List String) : String :=
  "[" ++ ", ".intercalate (texts.map display) ++ "]"

/-- Every character has a form of its own. -/
theorem displayChar_ne_nil (c : Char) : displayChar c ≠ [] := by
  unfold displayChar
  split <;> try simp
  split <;> simp

end MethodPrint.Text
