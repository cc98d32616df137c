import MethodPrint.Method.AccessFlags
import MethodPrint.Method.Basic
import MethodPrint.Method.Opcode

/-!
# Predicates

A predicate is the meaning of a fingerprint: what it demands of a method. Absent demands are met
by every method. What a predicate demands are properties that features state, so the predicate of a
set of features matches the methods that carry them.

`SPEC_FULL.md` 4.5; record `Predicate`, operation `matches`.
-/

namespace MethodPrint

/-- What a fingerprint demands of a method. -/
structure Predicate where
  /-- The named part of the access flag word. -/
  accessFlags : Option UInt32 := none
  /-- The descriptor of the return type. -/
  returnType : Option String := none
  /-- The descriptors of all parameters. -/
  parameters : Option (List String) := none
  /-- Strings that the body refers to. -/
  strings : List String := []
  /-- Signatures of methods that the body calls. -/
  invokes : List String := []
  /-- Numbers that the body uses. -/
  literals : List Int64 := []
  /-- Names of the opcodes from the first instruction on; a gap admits any instruction or none. -/
  opcodes : List (Option String) := []
  deriving DecidableEq

namespace Predicate

/-- Whether the instruction at a position has an opcode of the given name. -/
def opcodeNamed (method : Method) (index : Nat) (name : String) : Bool :=
  (method.instructions[index]?.bind fun instruction ↦ Opcode.name? instruction.opcode) == some name

/-- Whether a body has the named opcodes from a position on. -/
def opcodesMatch (method : Method) : Nat → List (Option String) → Bool
  | _, [] => true
  | index, none :: rest => opcodesMatch method (index + 1) rest
  | index, some name :: rest =>
    opcodeNamed method index name && opcodesMatch method (index + 1) rest

/-- Whether a method meets every demand (`matches`). -/
def accepts (predicate : Predicate) (method : Method) : Bool :=
  predicate.accessFlags.all (AccessFlag.named method.accessFlags == ·) &&
    predicate.returnType.all (method.returnType == ·) &&
    predicate.parameters.all (method.parameters == ·) &&
    predicate.strings.all (fun value ↦ method.instructions.any (·.string == some value)) &&
    predicate.invokes.all (fun signature ↦ method.instructions.any (·.method == some signature)) &&
    predicate.literals.all (fun value ↦ method.instructions.any (·.literal == some value)) &&
    opcodesMatch method 0 predicate.opcodes

/-- No demand at all is met by every method. -/
theorem accepts_default (method : Method) : accepts {} method = true := rfl

end Predicate

end MethodPrint
