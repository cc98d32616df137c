import MethodPrint.Text.Numeral

/-!
# Writing JSON

The values that stored forms are made of, and their texts: the compact one without any blanks, and
the pretty one with every item on a line of its own, indented by two spaces for each level.

`SPEC_FULL.md` 10.
-/

namespace MethodPrint.Json

/-- A JSON value; objects keep the order of their fields. -/
inductive Value where
  | null
  | number (value : Int)
  | string (value : String)
  | array (items : List Value)
  | object (fields : List (String × Value))

/-- The characters that stand for one character in a string. -/
def escapeChar (c : Char) : List Char :=
  match c with
  | '"' => ['\\', '"']
  | '\\' => ['\\', '\\']
  | '\x08' => ['\\', 'b']
  | '\x0c' => ['\\', 'f']
  | '\n' => ['\\', 'n']
  | '\r' => ['\\', 'r']
  | '\t' => ['\\', 't']
  | c => if c.toNat < 0x20 then ['\\', 'u'] ++ Text.hexPadded 4 c.toNat else [c]

/-- The text of a string. -/
def stringText (value : String) : List Char := '"' :: value.toList.flatMap escapeChar ++ ['"']

/-- The text of a number. -/
def numberText (value : Int) : List Char := (toString value).toList

mutual

/-- The compact text of a value. -/
def compact : Value → List Char
  | .null => ['n', 'u', 'l', 'l']
  | .number value => numberText value
  | .string value => stringText value
  | .array items => '[' :: compactItems items ++ [']']
  | .object fields => '{' :: compactFields fields ++ ['}']

/-- The compact texts of items, separated by commas. -/
def compactItems : List Value → List Char
  | [] => []
  | [item] => compact item
  | item :: items => compact item ++ ',' :: compactItems items

/-- The compact texts of fields, separated by commas. -/
def compactFields : List (String × Value) → List Char
  | [] => []
  | [(name, value)] => stringText name ++ ':' :: compact value
  | (name, value) :: fields => stringText name ++ ':' :: compact value ++ ',' :: compactFields fields

end

/-- A line break and the indentation of a level. -/
def newLine (level : Nat) : List Char := '\n' :: List.replicate (2 * level) ' '

mutual

/-- The pretty text of a value at a level of nesting. -/
def pretty (level : Nat) : Value → List Char
  | .null => ['n', 'u', 'l', 'l']
  | .number value => numberText value
  | .string value => stringText value
  | .array [] => ['[', ']']
  | .array items => '[' :: prettyItems (level + 1) items ++ newLine level ++ [']']
  | .object [] => ['{', '}']
  | .object fields => '{' :: prettyFields (level + 1) fields ++ newLine level ++ ['}']

/-- The pretty texts of items, each on a line of its own. -/
def prettyItems (level : Nat) : List Value → List Char
  | [] => []
  | [item] => newLine level ++ pretty level item
  | item :: items => newLine level ++ pretty level item ++ ',' :: prettyItems level items

/-- The pretty texts of fields, each on a line of its own. -/
def prettyFields (level : Nat) : List (String × Value) → List Char
  | [] => []
  | [(name, value)] => newLine level ++ stringText name ++ [':', ' '] ++ pretty level value
  | (name, value) :: fields =>
    newLine level ++ stringText name ++ [':', ' '] ++ pretty level value ++
      ',' :: prettyFields level fields

end

namespace Value

/-- The compact text of a value. -/
def compactText (value : Value) : String := String.ofList (compact value)

/-- The pretty text of a value. -/
def prettyText (value : Value) : String := String.ofList (pretty 0 value)

/-- A list of strings. -/
def strings (values : List String) : Value := .array (values.map .string)

end Value

end MethodPrint.Json
