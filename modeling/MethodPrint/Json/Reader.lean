import MethodPrint.Json.Numeral

/-!
# Reading JSON texts

Turns a text into what a reader meets in it. Where a value cannot be read to its end nothing after
it is looked at, since no reader gets past it.

`SPEC_FULL.md` 10.
-/

namespace MethodPrint.Json

/-- The four characters that may stand between values. -/
def isBlank (c : Char) : Bool := c == ' ' || c == '\t' || c == '\n' || c == '\r'

/-- A text without the blanks at its start. -/
def skipBlanks (text : List Char) : List Char := text.dropWhile isBlank

/-- The first half of a surrogate pair. -/
def isLeading (unit : Nat) : Bool := 0xd800 ≤ unit && unit ≤ 0xdbff

/-- The second half of a surrogate pair. -/
def isTrailing (unit : Nat) : Bool := 0xdc00 ≤ unit && unit ≤ 0xdfff

/-- The character that a surrogate pair stands for. -/
def pairChar (leading trailing : Nat) : Char :=
  Char.ofNat (0x10000 + (leading - 0xd800) * 0x400 + (trailing - 0xdc00))

/-- The fault of four hexadecimal digits that are not there. The digits take four bytes; a text
with fewer is cut short. -/
def unitFault (text : List Char) : Fault :=
  if (text.take 4).foldl (fun bytes c ↦ bytes + c.utf8Size) 0 < 4 then .cutShort else .malformed

/-- The fault of the first half of a surrogate pair that is not followed by a second half. -/
def leadingFault : List Char → Fault
  | [] => .cutShort
  | '\\' :: [] => .cutShort
  | '\\' :: 'u' :: a :: b :: c :: d :: _ =>
    match Text.hexQuad? a b c d with
    | some _ => .malformed
    | none => unitFault [a, b, c, d]
  | '\\' :: 'u' :: rest => unitFault rest
  | _ => .malformed

/-- The character that one letter after a backslash stands for. -/
def simpleEscape? (c : Char) : Option Char :=
  match c with
  | '"' => some '"'
  | '\\' => some '\\'
  | '/' => some '/'
  | 'b' => some '\x08'
  | 'f' => some '\x0c'
  | 'n' => some '\n'
  | 'r' => some '\r'
  | 't' => some '\t'
  | _ => none

/-- How a string ends. -/
inductive StringEnd where
  | closed (value : Except Fault (List Char)) (rest : List Char)
  | broken (kept passed : Fault)

/-- The end of a string with one more character at its start. -/
def StringEnd.cons (c : Char) : StringEnd → StringEnd
  | .closed value rest => .closed (value.map (c :: ·)) rest
  | .broken kept passed => .broken kept passed

/-- The end of a string that has a fault for readers that keep it, before all later faults. -/
def StringEnd.spoil (fault : Fault) : StringEnd → StringEnd
  | .closed _ rest => .closed (.error fault) rest
  | .broken _ passed => .broken fault passed

/-- Whether the second half of a surrogate pair follows. -/
def trailingFollows : List Char → Bool
  | '\\' :: 'u' :: a :: b :: c :: d :: _ => (Text.hexQuad? a b c d).any isTrailing
  | _ => false

/-- Reads a string after its opening quote. The first half of a surrogate pair is carried along up
to the second half, which is known to follow. -/
def readChars (leading : Option Nat) : List Char → StringEnd
  | [] => .broken .cutShort .cutShort
  | '"' :: rest => .closed (.ok []) rest
  | '\\' :: [] => .broken .cutShort .cutShort
  | '\\' :: 'u' :: a :: b :: c :: d :: rest =>
    match Text.hexQuad? a b c d, leading with
    | none, _ => .broken (unitFault [a, b, c, d]) (unitFault [a, b, c, d])
    | some unit, some first => (readChars none rest).cons (pairChar first unit)
    | some unit, none =>
      if isTrailing unit then (readChars none rest).spoil .malformed
      else if !isLeading unit then (readChars none rest).cons (Char.ofNat unit)
      else if trailingFollows rest then readChars (some unit) rest
      else (readChars none rest).spoil (leadingFault rest)
  | '\\' :: 'u' :: rest => .broken (unitFault rest) (unitFault rest)
  | '\\' :: c :: rest =>
    match simpleEscape? c with
    | some char => (readChars none rest).cons char
    | none => .broken .malformed .malformed
  | c :: rest =>
    if c.toNat < 0x20 then .broken .malformed .malformed else (readChars none rest).cons c

/-- Reads a string after its opening quote as a value. -/
def readString (text : List Char) : Tree × List Char :=
  match readChars none text with
  | .closed value rest => (.string (value.map String.ofList), rest)
  | .broken kept passed => (.brokenString kept passed, [])

/-- Reads the rest of a word that stands for a value. -/
def readWord (value : Tree) : List Char → List Char → Tree × List Char
  | [], text => (value, text)
  | _ :: _, [] => (.brokenScalar .cutShort .cutShort, [])
  | w :: word, c :: text =>
    if w = c then readWord value word text else (.brokenScalar .malformed .malformed, [])

mutual

/-- Reads a value and returns what follows it. Fuel bounds the calls within each other, of which
there are fewer than three for each character. -/
def readTree : Nat → List Char → Tree × List Char
  | 0, _ => (.absent .cutShort, [])
  | fuel + 1, text =>
    match skipBlanks text with
    | [] => (.absent .cutShort, [])
    | '[' :: rest =>
      let (items, rest) := readItems fuel rest
      (.array items, rest)
    | '{' :: rest =>
      let (entries, rest) := readEntries fuel rest
      (.object entries, rest)
    | '"' :: rest => readString rest
    | 'n' :: rest => readWord .null ['u', 'l', 'l'] rest
    | 't' :: rest => readWord (.bool true) ['r', 'u', 'e'] rest
    | 'f' :: rest => readWord (.bool false) ['a', 'l', 's', 'e'] rest
    | c :: rest =>
      if c = '-' ∨ c.isDigit then readNumber (c :: rest) else (.absent .malformed, [])

/-- Reads the items of an array after its opening bracket. -/
def readItems : Nat → List Char → Items × List Char
  | 0, _ => (.stop .cutShort, [])
  | fuel + 1, text =>
    match skipBlanks text with
    | [] => (.stop .cutShort, [])
    | ']' :: rest => (.closed, rest)
    | text => readItem fuel text

/-- Reads an item and those after it. -/
def readItem : Nat → List Char → Items × List Char
  | 0, _ => (.stop .cutShort, [])
  | fuel + 1, text =>
    let (value, rest) := readTree fuel text
    let (items, rest) := readMoreItems fuel (skipBlanks rest)
    (.item value items, rest)

/-- Reads the items after another one. -/
def readMoreItems : Nat → List Char → Items × List Char
  | 0, _ => (.stop .cutShort, [])
  | _ + 1, [] => (.stop .cutShort, [])
  | _ + 1, ']' :: rest => (.closed, rest)
  | fuel + 1, ',' :: rest => readItem fuel rest
  | _ + 1, _ => (.stop .malformed, [])

/-- Reads the entries of an object after its opening brace. -/
def readEntries : Nat → List Char → Entries × List Char
  | 0, _ => (.stop .cutShort, [])
  | fuel + 1, text =>
    match skipBlanks text with
    | [] => (.stop .cutShort, [])
    | '}' :: rest => (.closed, rest)
    | text => readEntry fuel text

/-- Reads an entry and those after it. -/
def readEntry : Nat → List Char → Entries × List Char
  | 0, _ => (.stop .cutShort, [])
  | fuel + 1, text =>
    match skipBlanks text with
    | '"' :: rest =>
      match readChars none rest with
      | .broken kept passed => (.brokenName kept passed, [])
      | .closed name rest =>
        let (value, rest) := readNamed fuel (skipBlanks rest)
        let (entries, rest) := readMoreEntries fuel (skipBlanks rest)
        (.entry (name.map String.ofList) value entries, rest)
    | text => (.unnamed (readTree fuel text).1, [])

/-- Reads the value of an entry after its name. -/
def readNamed : Nat → List Char → Tree × List Char
  | 0, _ => (.absent .cutShort, [])
  | _ + 1, [] => (.absent .cutShort, [])
  | fuel + 1, ':' :: rest => readTree fuel rest
  | _ + 1, _ => (.absent .malformed, [])

/-- Reads the entries after another one. -/
def readMoreEntries : Nat → List Char → Entries × List Char
  | 0, _ => (.stop .cutShort, [])
  | _ + 1, [] => (.stop .cutShort, [])
  | _ + 1, '}' :: rest => (.closed, rest)
  | fuel + 1, ',' :: rest => readEntry fuel rest
  | _ + 1, _ => (.stop .malformed, [])

end

/-- What a reader meets in a text, and what follows the value. -/
def treeOf (text : List Char) : Tree × List Char := readTree (3 * text.length + 3) text

/-- Reads a text that holds one value and nothing else but blanks. -/
def readText {α : Type} (read : Tree → Except Fault α) (text : String) : Except Fault α :=
  let (tree, rest) := treeOf text.toList
  match read tree with
  | .error fault => .error fault
  | .ok value => if (skipBlanks rest).isEmpty then .ok value else .error .malformed

end MethodPrint.Json
