import MethodPrint.Text.CharClass

/-!
# Opcode names

Predicates name an opcode by an identifier made from its mnemonic: `invoke-virtual/range` is
written `INVOKE_VIRTUAL_RANGE`. Not every mnemonic gives an identifier, and different mnemonics
may share one.

`SPEC_FULL.md` 4.4; operation `dsl_name`.
-/

namespace MethodPrint.Opcode

/-- How a character of a mnemonic appears in the name. -/
def nameChar (c : Char) : Char :=
  if c == '-' || c == '/' || c == '.' then '_' else c.toUpper

/-- The name of an opcode in predicates, if its mnemonic forms an identifier (`dsl_name`). -/
def name? (mnemonic : String) : Option String :=
  let name := mnemonic.toList.map nameChar
  if Text.isIdentifier name then some (String.ofList name) else none

/-- A name is an identifier. -/
theorem isIdentifier_of_name? {mnemonic name : String} (h : name? mnemonic = some name) :
    Text.isIdentifier name.toList = true := by
  simp only [name?] at h
  split at h
  · next hi => cases h; simpa using hi
  · cases h

end MethodPrint.Opcode
