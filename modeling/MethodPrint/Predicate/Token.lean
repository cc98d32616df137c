import MethodPrint.Error

/-!
# Tokens of the predicate language

A source text is read as a list of tokens, each with the place where it starts. Places count
characters from the start of the text; faults are found at places and reported by line and column.

`SPEC_FULL.md` 4.5; records `Token` and `EvalError`.
-/

namespace MethodPrint

/-- A token of the predicate language. -/
inductive Token where
  | identifier (name : String)
  | string (value : String)
  | number (value : Int64)
  | openParen
  | closeParen
  | openBrace
  | closeBrace
  | comma
  | dot
  deriving DecidableEq

/-- A token with the place of its first character. -/
structure PlacedToken where
  token : Token
  place : Nat
  deriving DecidableEq

/-- How messages speak of a token. -/
def Token.describe : Token → String
  | .identifier name => "'" ++ name ++ "'"
  | .string _ => "string literal"
  | .number _ => "number"
  | .openParen => "'('"
  | .closeParen => "')'"
  | .openBrace => "'\x7b'"
  | .closeBrace => "'\x7d'"
  | .comma => "','"
  | .dot => "'.'"

/-- How messages speak of the next token or of the end of the text. -/
def Token.describeNext : Option Token → String
  | some token => token.describe
  | none => "end of input"

/-- What is wrong with a source text. -/
inductive SourceFault where
  | unexpectedCharacter (c : Char)
  | unterminatedString
  | unterminatedEscape
  | unknownEscape (c : Char)
  | expectedHexDigits
  | notACharacter (code : Nat)
  | numberOutOfRange (numeral : String)
  | expected (token : Token) (found : Option Token)
  | expectedFingerprint (found : Option Token)
  | expectedClause (found : Option Token)
  | expectedArgument (found : Option Token)
  | expectedName (found : Option Token)
  | expectedSeparator (found : Option Token)
  | unexpectedTail (found : Token)
  | repeatedClause (name : String)
  | unknownClause (name : String)
  | unknownFlag (name : String)
  | flagsExpected
  | oneTypeExpected
  | stringsExpected (clause : String)
  | numbersExpected
  | opcodesExpected
  deriving DecidableEq

/-- The text of a fault. -/
def SourceFault.message : SourceFault → String
  | .unexpectedCharacter c => "unexpected character '" ++ c.toString ++ "'"
  | .unterminatedString => "unterminated string literal"
  | .unterminatedEscape => "unterminated escape sequence"
  | .unknownEscape c => "unknown escape sequence '\\" ++ c.toString ++ "'"
  | .expectedHexDigits => "expected four hex digits after '\\u'"
  | .notACharacter code =>
    "'\\u" ++ String.ofList (Text.hexPadded 4 code) ++ "' is not a character"
  | .numberOutOfRange numeral => "number " ++ numeral ++ " is out of range"
  | .expected token found =>
    "expected " ++ token.describe ++ ", found " ++ Token.describeNext found
  | .expectedFingerprint found => "expected 'fingerprint', found " ++ Token.describeNext found
  | .expectedClause found => "expected a clause, found " ++ Token.describeNext found
  | .expectedArgument found => "expected an argument, found " ++ Token.describeNext found
  | .expectedName found => "expected a name, found " ++ Token.describeNext found
  | .expectedSeparator found => "expected ',' or ')', found " ++ Token.describeNext found
  | .unexpectedTail found => "unexpected " ++ found.describe ++ " after fingerprint"
  | .repeatedClause name => "clause '" ++ name ++ "' given more than once"
  | .unknownClause name => "unknown clause '" ++ name ++ "'"
  | .unknownFlag name => "unknown access flag '" ++ name ++ "'"
  | .flagsExpected => "accessFlags expects AccessFlags.NAME arguments"
  | .oneTypeExpected => "returns expects exactly one type descriptor"
  | .stringsExpected clause => clause ++ " expects string arguments"
  | .numbersExpected => "literals expects numbers"
  | .opcodesExpected => "opcodes expects Opcode.NAME or null"

/-- A fault and the place where it was found. -/
structure PlacedFault where
  place : Nat
  fault : SourceFault
  deriving DecidableEq

/-- The line and column after some characters, both counted from one. -/
def lineColumn (before : List Char) : Nat × Nat :=
  before.foldl (fun (line, column) c ↦
    if c = '\n' then (line + 1, 1) else (line, column + 1)) (1, 1)

/-- The diagnostic of a fault in a source text. -/
def PlacedFault.diagnose (source : List Char) (found : PlacedFault) : Diagnostic :=
  let (line, column) := lineColumn (source.take found.place)
  { line, column, message := found.fault.message }

/-- A line break starts a line, and any other character moves one column on. -/
theorem lineColumn_concat (before : List Char) (c : Char) :
    lineColumn (before ++ [c]) =
      if c = '\n' then ((lineColumn before).1 + 1, 1)
      else ((lineColumn before).1, (lineColumn before).2 + 1) := by
  simp [lineColumn]

end MethodPrint
