/-!
# Access flags

The access flag word of a method and the names that predicates use for its bits. Bits without a
name take no part in fingerprints.

`SPEC_FULL.md` 3 and 4.1; tables `FLAG_NAMES` and `KNOWN_FLAGS`, operation `flag_names`.
-/

namespace MethodPrint

/-- A bit of the access flag word and its name. -/
structure AccessFlag where
  bit : UInt32
  name : String
  deriving DecidableEq

namespace AccessFlag

/-- The named bits in the order in which they are written. -/
def table : List AccessFlag := [
  ⟨0x1, "PUBLIC"⟩, ⟨0x2, "PRIVATE"⟩, ⟨0x4, "PROTECTED"⟩, ⟨0x8, "STATIC"⟩, ⟨0x10, "FINAL"⟩,
  ⟨0x20, "SYNCHRONIZED"⟩, ⟨0x40, "BRIDGE"⟩, ⟨0x80, "VARARGS"⟩, ⟨0x100, "NATIVE"⟩,
  ⟨0x200, "INTERFACE"⟩, ⟨0x400, "ABSTRACT"⟩, ⟨0x800, "STRICTFP"⟩, ⟨0x1000, "SYNTHETIC"⟩,
  ⟨0x2000, "ANNOTATION"⟩, ⟨0x4000, "ENUM"⟩, ⟨0x10000, "CONSTRUCTOR"⟩,
  ⟨0x20000, "DECLARED_SYNCHRONIZED"⟩]

/-- Every bit that has a name. -/
def known : UInt32 := table.foldl (fun mask flag ↦ mask ||| flag.bit) 0

/-- The part of a flag word that has names. -/
def named (flags : UInt32) : UInt32 := flags &&& known

/-- The part of a flag word that has no names. -/
def unnamed (flags : UInt32) : UInt32 := flags &&& ~~~known

/-- The bit that a name stands for. -/
def bit? (name : String) : Option UInt32 :=
  (table.find? (·.name == name)).map (·.bit)

/-- The names of the bits that a flag word has, in table order. -/
def names (flags : UInt32) : List String :=
  (table.filter fun flag ↦ flags &&& flag.bit != 0).map (·.name)

/-- The named bits as a number. -/
theorem known_eq : known = 0x37fff := by decide

/-- Keeping the named bits twice keeps no more than once. -/
theorem named_named (flags : UInt32) : named (named flags) = named flags := by
  simp [named, UInt32.and_assoc]

/-- What is kept has no unnamed bit. -/
theorem unnamed_named (flags : UInt32) : unnamed (named flags) = 0 := by
  simp [unnamed, named, UInt32.and_assoc]

end AccessFlag

end MethodPrint
