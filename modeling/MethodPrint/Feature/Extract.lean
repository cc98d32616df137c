import MethodPrint.Corpus
import MethodPrint.Error
import MethodPrint.Feature.Basic
import MethodPrint.Method.AccessFlags

/-!
# Extraction

The features of a method in their fixed order: access flags, return type, parameters, then the
strings, signatures and numbers of the body, each once and in order of first use, then the opcodes
of the leading instructions by position. How many instructions count as leading is the window.

`SPEC_FULL.md` 4.1; operations `extract` and `extract_method`.
-/

namespace MethodPrint

namespace Method

/-- What keeps a method from being fingerprinted. -/
def flaw? (method : Method) : Option MethodFlaw :=
  if method.id.text.isEmpty then some .emptyId
  else if method.returnType.isEmpty then some .emptyReturnType
  else (method.instructions.findIdx? (·.opcode.isEmpty)).map .missingOpcode

/-- The features that come from the signature. -/
def signatureFeatures (method : Method) : List Feature :=
  [.accessFlags (AccessFlag.named method.accessFlags), .returnType method.returnType,
    .parameters method.parameters]

/-- The features that come from the operands of the body, each once, at its first use. -/
def operandFeatures (method : Method) : List Feature :=
  (method.instructions.filterMap (·.string)).eraseDups.map .stringLiteral ++
    (method.instructions.filterMap (·.method)).eraseDups.map .invokedMethod ++
    (method.instructions.filterMap (·.literal)).eraseDups.map .literal

/-- The features that come from the opcodes within the window. -/
def opcodeFeatures (window : Nat) (method : Method) : List Feature :=
  (method.instructions.take window).zipIdx.map fun (instruction, index) ↦
    .opcodeAt index instruction.opcode

/-- All features of a method in order. -/
def features (window : Nat) (method : Method) : List Feature :=
  method.signatureFeatures ++ method.operandFeatures ++ method.opcodeFeatures window

/-- The features of a method, or what is wrong with it (`extract_method`). -/
def extract (window : Nat) (method : Method) : Except FingerprintError (List Feature) :=
  match method.flaw? with
  | some flaw => .error (.malformedMethod method.id flaw)
  | none => .ok (method.features window)

/-- Extraction succeeds exactly on methods without a flaw. -/
theorem extract_eq_ok_iff {window : Nat} {method : Method} {fs : List Feature} :
    method.extract window = .ok fs ↔ method.flaw? = none ∧ method.features window = fs := by
  unfold extract
  split
  · next flaw h => simp [h]
  · next h => simp [h]

end Method

/-- The features of a corpus member (`extract`); fields and classes have none. -/
def Member.extract (window : Nat) : Member → Except FingerprintError (List Feature)
  | .method decl => decl.extract window
  | member => .error (.unsupportedMember member.kind member.id)

end MethodPrint
