import MethodPrint.Json.Value
import MethodPrint.Report.Basic

/-!
# Stored forms

The JSON values in which corpora, features and results are stored. The fields of an object stand in
the order of their declarations; what tells variants apart, the `kind`, comes first. Operands that
an instruction does not have are left out, and everything else is written even if it is empty.

`SPEC_FULL.md` 10.
-/

namespace MethodPrint

open Json (Value)

/-- The stored form of an unsigned number. -/
def storedNat (n : Nat) : Value := .number n

/-- The stored form of a list. -/
def storedList {α : Type} (stored : α → Value) (values : List α) : Value :=
  .array (values.map stored)

/-- The field of an optional value, left out if there is none. -/
def storedOption {α : Type} (name : String) (stored : α → Value) : Option α → List (String × Value)
  | some value => [(name, stored value)]
  | none => []

/-- The stored form of a method identifier. -/
def MethodId.stored (id : MethodId) : Value := .string id.text

/-- The stored form of a feature's value. -/
def Feature.storedValue : Feature → Value
  | .accessFlags flags => storedNat flags.toNat
  | .returnType type => .string type
  | .parameters types => storedList .string types
  | .stringLiteral value => .string value
  | .invokedMethod signature => .string signature
  | .literal value => .number value.toInt
  | .opcodeAt index opcode => .object [("index", storedNat index), ("opcode", .string opcode)]

/-- The stored form of a feature. -/
def Feature.stored (feature : Feature) : Value :=
  .object [("kind", .string feature.kind.name), ("value", feature.storedValue)]

/-- The stored form of a strategy. -/
def Strategy.stored (strategy : Strategy) : Value := .string strategy.name

/-- The stored form of an instruction. -/
def Instruction.stored (instruction : Instruction) : Value :=
  .object (("opcode", .string instruction.opcode) ::
    storedOption "string" .string instruction.string ++
    storedOption "method" .string instruction.method ++
    storedOption "literal" (fun value ↦ .number value.toInt) instruction.literal)

/-- The fields of a stored method. -/
def Method.storedFields (method : Method) : List (String × Value) :=
  [("id", method.id.stored), ("access_flags", storedNat method.accessFlags.toNat),
    ("return_type", .string method.returnType),
    ("parameters", storedList .string method.parameters),
    ("instructions", storedList Instruction.stored method.instructions)]

/-- The stored form of a method. -/
def Method.stored (method : Method) : Value := .object method.storedFields

/-- The fields of a stored field declaration. -/
def Field.storedFields (field : Field) : List (String × Value) :=
  [("id", .string field.id), ("access_flags", storedNat field.accessFlags.toNat),
    ("field_type", .string field.fieldType)]

/-- The fields of a stored class declaration. -/
def ClassDecl.storedFields (decl : ClassDecl) : List (String × Value) :=
  [("id", .string decl.id), ("access_flags", storedNat decl.accessFlags.toNat)]

/-- The fields of a stored member other than its kind. -/
def Member.storedFields : Member → List (String × Value)
  | .method decl => decl.storedFields
  | .field decl => decl.storedFields
  | .classDecl decl => decl.storedFields

/-- The stored form of a member. -/
def Member.stored (member : Member) : Value :=
  .object (("kind", .string member.kind.name) :: member.storedFields)

/-- The stored form of a corpus. -/
def Corpus.stored (corpus : Corpus) : Value :=
  .object [("id", .string corpus.id), ("members", storedList Member.stored corpus.members)]

/-- The stored form of a distinguishing set. -/
def MinimalSet.stored (set : MinimalSet) : Value :=
  .object [("target", set.target.stored), ("indices", storedList storedNat set.indices),
    ("features", storedList Feature.stored set.features), ("strategy", set.strategy.stored)]

/-- The stored form of a rendered set. -/
def RenderedSet.stored (set : RenderedSet) : Value :=
  .object [("features", storedList Feature.stored set.features),
    ("fingerprint", .string set.fingerprint), ("strategy", set.strategy.stored)]

/-- The stored form of a report. -/
def Report.stored (report : Report) : Value :=
  .object [("method", report.method.stored), ("corpus_id", .string report.corpusId),
    ("corpus_digest", .string report.corpusDigest), ("generation", storedNat report.generation),
    ("full_feature_count", storedNat report.fullFeatureCount),
    ("full_fingerprint", .string report.fullFingerprint),
    ("fingerprints", storedList RenderedSet.stored report.fingerprints)]

/-- The stored form of a resolution. -/
def Resolution.stored (resolution : Resolution) : Value :=
  .object [("method", resolution.method.stored),
    ("additional_matches", storedList MethodId.stored resolution.additional)]

end MethodPrint
