import MethodPrint.Method.Id

/-!
# Methods

A method as a corpus gives it: signature, access flags and body. Only the parts of an instruction
that fingerprints can refer to are kept.

`SPEC_FULL.md` 3; records `MethodDef` and `Instruction`.
-/

namespace MethodPrint

/-- An instruction of a method body with the operands that features are made of. -/
structure Instruction where
  opcode : String
  string : Option String := none
  method : Option String := none
  literal : Option Int64 := none
  deriving DecidableEq

namespace Instruction

/-- An instruction that loads a string. -/
def constString (value : String) : Instruction := { opcode := "const-string", string := value }

/-- An instruction that calls the method with the given signature. -/
def invoke (opcode signature : String) : Instruction := { opcode, method := signature }

/-- An instruction with a number as its operand. -/
def withLiteral (opcode : String) (value : Int64) : Instruction := { opcode, literal := value }

end Instruction

/-- The most strings that one list holds: a list takes no more bytes than the largest signed number
of 64 bits, and every string in it takes 24 of them. -/
def stringCapacity : Nat := 0x7fffffffffffffff / 24

/-- A method with everything that fingerprints can refer to; abstract and native methods have no
instructions. -/
structure Method where
  id : MethodId
  accessFlags : UInt32 := 0
  returnType : String
  parameters : List String := []
  instructions : List Instruction := []
  /-- Every instruction of the list holds a string at least, its opcode. -/
  fits : instructions.length ≤ stringCapacity := by decide
  deriving DecidableEq

namespace Method

/-- The method with other parameter types. -/
def withParameters (method : Method) (types : List String) : Method :=
  { method with parameters := types }

/-- The method with one more instruction at the end of its body, if there is room for it. -/
def push (method : Method) (instruction : Instruction) : Method :=
  if h : method.instructions.length < stringCapacity then
    { method with
      instructions := method.instructions ++ [instruction]
      fits := by rwa [List.length_append, List.length_singleton] }
  else method

/-- Appending lengthens the body by one. -/
theorem length_instructions_push {method : Method}
    (h : method.instructions.length < stringCapacity) (instruction : Instruction) :
    (method.push instruction).instructions.length = method.instructions.length + 1 := by
  simp [push, h]

end Method

end MethodPrint
