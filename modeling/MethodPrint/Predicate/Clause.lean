import MethodPrint.Error
import MethodPrint.Feature.Basic
import MethodPrint.Method.AccessFlags
import MethodPrint.Method.Basic
import MethodPrint.Method.Opcode

/-!
# Clauses

A fingerprint demands features by clauses, one for each kind. Features of one kind join in the
clause of the first of them. Three kinds have one value, so that different features of such a kind
cannot join; an opcode clause has one name for each position.

`SPEC_FULL.md` 4.4; operations `open`, `absorb` and `write` of a clause.
-/

namespace MethodPrint

/-- What a fingerprint demands by one clause. -/
inductive Clause where
  | accessFlags (flags : UInt32)
  | returns (type : String)
  | parameters (types : List String)
  | strings (values : List String)
  | invokes (signatures : List String)
  | literals (values : List Int64)
  /-- Opcode names by position, in the order in which they joined. -/
  | opcodes (names : List (Nat × String))
  deriving DecidableEq

namespace Clause

/-- Appends a value that is not yet listed. -/
def addNew {α : Type} [DecidableEq α] (values : List α) (value : α) : List α :=
  if value ∈ values then values else values ++ [value]

/-- The name of an opcode, which not every mnemonic has. -/
def opcodeName (mnemonic : String) : Except RenderFault String :=
  match Opcode.name? mnemonic with
  | some name => .ok name
  | none => .error (.unnamedOpcode mnemonic)

/-- The clause of a single feature (`open`). -/
def ofFeature : Feature → Except RenderFault Clause
  | .accessFlags flags => .ok (.accessFlags flags)
  | .returnType type => .ok (.returns type)
  | .parameters types => .ok (.parameters types)
  | .stringLiteral value => .ok (.strings [value])
  | .invokedMethod signature => .ok (.invokes [signature])
  | .literal value => .ok (.literals [value])
  | .opcodeAt index opcode => (opcodeName opcode).map fun name ↦ .opcodes [(index, name)]

/-- Names by position with one more, which must not differ from one already there. -/
def nameAt (names : List (Nat × String)) (index : Nat) (name : String) :
    Except RenderFault (List (Nat × String)) :=
  match names.lookup index with
  | none => .ok (names ++ [(index, name)])
  | some first => if first = name then .ok names else .error (.opcodeConflict index first name)

/-- The clause with one more feature of its kind (`absorb`); no answer for a feature of another
kind. -/
def join? : Clause → Feature → Option (Except RenderFault Clause)
  | .accessFlags first, .accessFlags flags =>
    some (if first = flags then .ok (.accessFlags first)
      else .error (.accessFlagsConflict first flags))
  | .returns first, .returnType type =>
    some (if first = type then .ok (.returns first) else .error (.returnTypeConflict first type))
  | .parameters first, .parameters types =>
    some (if first = types then .ok (.parameters first)
      else .error (.parametersConflict first types))
  | .strings values, .stringLiteral value => some (.ok (.strings (addNew values value)))
  | .invokes signatures, .invokedMethod signature =>
    some (.ok (.invokes (addNew signatures signature)))
  | .literals values, .literal value => some (.ok (.literals (addNew values value)))
  | .opcodes names, .opcodeAt index opcode =>
    some do
      let name ← opcodeName opcode
      return .opcodes (← nameAt names index name)
  | _, _ => none

/-- Some clauses with one more feature, in the clause of its kind or in a new one at the end. -/
def insert : List Clause → Feature → Except RenderFault (List Clause)
  | [], feature => (ofFeature feature).map ([·])
  | clause :: clauses, feature =>
    match clause.join? feature with
    | some joined => joined.map (· :: clauses)
    | none => (insert clauses feature).map (clause :: ·)

/-- The clauses of a list of features in the order of the first feature of each. -/
def ofFeatures (features : List Feature) : Except RenderFault (List Clause) :=
  features.foldlM insert []

/-- The last position that has a name. -/
def lastPosition (names : List (Nat × String)) : Nat :=
  names.foldl (fun last entry ↦ max last entry.1) 0

/-- The name or gap at each position up to the last one that has a name. -/
def slots (names : List (Nat × String)) : List (Option String) :=
  (List.range (lastPosition names + 1)).map fun index ↦ names.lookup index

/-- The slots of an opcode clause, if a list has room for their texts. Room is made for all of them
before the first is filled, so that a single name at a large position can be too many. -/
def opcodePattern? (names : List (Nat × String)) : Option (List (Option String)) :=
  if lastPosition names < stringCapacity then some (slots names) else none

/-- A listed value is not listed again. -/
theorem addNew_of_mem {α : Type} [DecidableEq α] {values : List α} {value : α}
    (h : value ∈ values) : addNew values value = values := by
  simp [addNew, h]

end Clause

end MethodPrint
