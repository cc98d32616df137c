import MethodPrint.Predicate.Clause
import MethodPrint.Text.CharClass

/-!
# Rendering fingerprints

The text of a fingerprint: the word `fingerprint` and one line for each clause, in braces. The same
features always give the same text.

`SPEC_FULL.md` 4.4; operations `render`, `quote` and `flag_names` of the generator.
-/

namespace MethodPrint

/-- The characters that stand for one character in a string of the predicate language. -/
def quoteChar (c : Char) : List Char :=
  match c with
  | '\\' => ['\\', '\\']
  | '"' => ['\\', '"']
  | '\n' => ['\\', 'n']
  | '\r' => ['\\', 'r']
  | '\t' => ['\\', 't']
  | '$' => ['\\', '$']
  | c => if Text.isControl c then ['\\', 'u'] ++ Text.hexPadded 4 c.toNat else [c]

/-- A string of the predicate language that stands for a text. -/
def quote (value : String) : String :=
  String.ofList ('"' :: value.toList.flatMap quoteChar ++ ['"'])

/-- The text of a clause with some arguments. -/
def clauseText (name : String) (arguments : List String) : String :=
  name ++ "(" ++ ", ".intercalate arguments ++ ")"

namespace Clause

/-- The text of an opcode name or a gap. -/
def opcodeText : Option String → String
  | some name => "Opcode." ++ name
  | none => "null"

/-- The text of a clause (`write`). Only a flag word whose bits all have names has one, and only
opcodes for which there is room. -/
def text : Clause → Except RenderFailure String
  | .accessFlags flags =>
    if AccessFlag.unnamed flags = 0 then
      .ok (clauseText "accessFlags" ((AccessFlag.names flags).map ("AccessFlags." ++ ·)))
    else .error (.fault (.unnamedFlags (AccessFlag.unnamed flags)))
  | .returns type => .ok (clauseText "returns" [quote type])
  | .parameters types => .ok (clauseText "parameters" (types.map quote))
  | .strings values => .ok (clauseText "strings" (values.map quote))
  | .invokes signatures => .ok (clauseText "invokes" (signatures.map quote))
  | .literals values => .ok (clauseText "literals" (values.map fun value ↦ toString value.toInt))
  | .opcodes names =>
    match opcodePattern? names with
    | some pattern => .ok (clauseText "opcodes" (pattern.map opcodeText))
    | none => .error .crashed

/-- A clause on a line of its own. -/
def line (clauseText : String) : String := "    " ++ clauseText ++ "\n"

end Clause

/-- The fingerprint that demands some features, or why there is none. -/
def render (features : List Feature) : Except RenderFailure String := do
  let clauses ← (Clause.ofFeatures features).mapError .fault
  let texts ← clauses.mapM Clause.text
  return "fingerprint \x7b\n" ++ String.join (texts.map Clause.line) ++ "\x7d"

/-- No features give the fingerprint without clauses. -/
theorem render_nil : render [] = .ok "fingerprint \x7b\n\x7d" := rfl

end MethodPrint
