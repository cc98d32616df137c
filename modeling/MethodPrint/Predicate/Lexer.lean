import MethodPrint.Predicate.Token
import MethodPrint.Text.CharClass

/-!
# Reading tokens

Tokens stand next to each other or apart by trivia: blanks and comments, which start with two
slashes and end with the line. Every rule here says how many characters it takes, and the reader
goes on after them.

`SPEC_FULL.md` 4.5; operation `tokenize`.
-/

namespace MethodPrint

/-- The number of characters of trivia at the start of a text; within a comment if so told. -/
def triviaLength : Bool → List Char → Nat
  | _, [] => 0
  | true, c :: cs => 1 + triviaLength (c != '\n') cs
  | false, c :: cs =>
    if Text.isBlank c then 1 + triviaLength false cs
    else if c = '/' ∧ cs.head? = some '/' then 1 + triviaLength true cs
    else 0

/-- The characters that one letter after a backslash stands for. -/
def simpleEscape? (c : Char) : Option Char :=
  match c with
  | '\\' => some '\\'
  | '"' => some '"'
  | '\'' => some '\''
  | 'n' => some '\n'
  | 'r' => some '\r'
  | 't' => some '\t'
  | 'b' => some '\x08'
  | '$' => some '$'
  | _ => none

/-- The character with a code, unless the code is half of a surrogate pair. -/
def charOfCode? (code : Nat) : Option Char :=
  if code.isValidChar then some (Char.ofNat code) else none

/-- How far the reading of four hexadecimal digits gets when they are not all there: past the first
character that is no digit, or to the end of the text. -/
def hexFaultLength (cs : List Char) : Nat :=
  min (((cs.take 4).takeWhile fun c ↦ (Text.hexDigit? c).isSome).length + 1) cs.length

/-- Reads a string after its opening quote: the characters it stands for and the number of
characters up to and with the closing quote, after `taken` characters before. Faults within an
escape are placed after its last character read, counted from the opening quote; a string that is
not closed is a fault of its opening quote. -/
def lexString (taken : Nat) : List Char → Except PlacedFault (List Char × Nat)
  | [] => .error ⟨0, .unterminatedString⟩
  | '"' :: _ => .ok ([], taken + 1)
  | '\n' :: _ => .error ⟨0, .unterminatedString⟩
  | '\\' :: [] => .error ⟨taken + 2, .unterminatedEscape⟩
  | '\\' :: 'u' :: a :: b :: c :: d :: cs =>
    match Text.hexQuad? a b c d with
    | none => .error ⟨taken + 3 + hexFaultLength [a, b, c, d], .expectedHexDigits⟩
    | some code =>
      match charOfCode? code with
      | none => .error ⟨taken + 7, .notACharacter code⟩
      | some char => (lexString (taken + 6) cs).map fun (value, n) ↦ (char :: value, n)
  | '\\' :: 'u' :: cs => .error ⟨taken + 3 + hexFaultLength cs, .expectedHexDigits⟩
  | '\\' :: c :: cs =>
    match simpleEscape? c with
    | none => .error ⟨taken + 3, .unknownEscape c⟩
    | some char => (lexString (taken + 2) cs).map fun (value, n) ↦ (char :: value, n)
  | c :: cs => (lexString (taken + 1) cs).map fun (value, n) ↦ (c :: value, n)

/-- Reads a number whose first character is given: an optional minus sign, digits and an optional
suffix `L`. Numbers have 64 bits. -/
def lexNumber (first : Char) (rest : List Char) : Except PlacedFault (Token × Nat) :=
  let digits := rest.takeWhile Char.isDigit
  let suffix := if (rest.drop digits.length).head? = some 'L' then 1 else 0
  let value : Int :=
    if first = '-' then -(Text.ofDigits digits : Int) else Text.ofDigits (first :: digits)
  if Int64.minValue.toInt ≤ value ∧ value ≤ Int64.maxValue.toInt then
    .ok (.number (Int64.ofInt value), digits.length + suffix)
  else .error ⟨0, .numberOutOfRange (String.ofList (first :: digits))⟩

/-- Whether a number starts here: a digit, or a minus sign before one. -/
def startsNumber (first : Char) (rest : List Char) : Bool :=
  first.isDigit || (first == '-' && rest.head?.any Char.isDigit)

/-- Reads the token that starts with a character: the token and the number of characters that it
takes after the first. Faults are placed from the start of the token. -/
def lexToken (first : Char) (rest : List Char) : Except PlacedFault (Token × Nat) :=
  match first with
  | '(' => .ok (.openParen, 0)
  | ')' => .ok (.closeParen, 0)
  | '{' => .ok (.openBrace, 0)
  | '}' => .ok (.closeBrace, 0)
  | ',' => .ok (.comma, 0)
  | '.' => .ok (.dot, 0)
  | '"' => (lexString 0 rest).map fun (value, n) ↦ (.string (String.ofList value), n)
  | c =>
    if startsNumber c rest then lexNumber c rest
    else if Text.isIdentifierStart c then
      let name := rest.takeWhile Text.isIdentifierRest
      .ok (.identifier (String.ofList (c :: name)), name.length)
    else .error ⟨0, .unexpectedCharacter c⟩

/-- Reads all tokens of a text that starts at a place. -/
def lexFrom (place : Nat) (text : List Char) : Except PlacedFault (List PlacedToken) :=
  let trivia := triviaLength false text
  match _h : text.drop trivia with
  | [] => .ok []
  | first :: rest =>
    let start := place + trivia
    match lexToken first rest with
    | .error found => .error { found with place := start + found.place }
    | .ok (token, n) =>
      (lexFrom (start + 1 + n) (rest.drop n)).map fun tokens ↦ ⟨token, start⟩ :: tokens
termination_by text.length
decreasing_by
  have hl := congrArg List.length _h
  simp only [List.length_drop, List.length_cons] at hl ⊢
  omega

/-- Reads all tokens of a text. -/
def lex (text : List Char) : Except PlacedFault (List PlacedToken) := lexFrom 0 text

end MethodPrint
