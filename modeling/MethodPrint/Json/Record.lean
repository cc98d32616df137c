import MethodPrint.Json.Tree

/-!
# Reading records

A record is stored as an object with its fields in any order, or as an array of its fields in the
order of declaration. Names that are no fields are passed over, a field may be given once, and a
field without a default has to be given. Fields are read as they come, so that the first fault
from left to right is the one that is reported.
-/

namespace MethodPrint.Json

/-- Reads a value out of what stands in a text. -/
abbrev Read (α : Type) := Tree → Except Fault α

/-- A read out of a value that was kept before: no fault is left but that of the shape. -/
def Read.ofKept {α : Type} (read : Read α) : Read α := fun tree ↦
  (read tree).mapError fun _ ↦ .misfit

/-- Reads a string. -/
def readText? : Read String
  | .string (.ok value) => .ok value
  | tree => .error tree.mismatch

/-- Reads an integer for which `accept` has a value. -/
def readInteger {α : Type} (accept : Int → Option α) : Read α
  | .integer value =>
    match accept value with
    | some result => .ok result
    | none => .error .misfit
  | tree => .error tree.mismatch

/-- Reads an unsigned number below a bound. -/
def readNatBelow (bound : Nat) : Read Nat :=
  readInteger fun value ↦ if 0 ≤ value ∧ value < bound then some value.toNat else none

/-- Reads an unsigned number of 64 bits. -/
def readNat64 : Read Nat := readNatBelow UInt64.size

/-- Reads an unsigned word of 32 bits. -/
def readWord32 : Read UInt32 := fun tree ↦ (readNatBelow UInt32.size tree).map UInt32.ofNat

/-- Reads a signed number of 64 bits. -/
def readInt64 : Read Int64 :=
  readInteger fun value ↦
    if Int64.minValue.toInt ≤ value ∧ value ≤ Int64.maxValue.toInt then some (Int64.ofInt value)
    else none

/-- Reads a value that may be `null`. -/
def readOptional {α : Type} (read : Read α) : Read (Option α)
  | .null => .ok none
  | tree => (read tree).map some

/-- Reads the items of a list. -/
def Items.readAll {α : Type} (read : Read α) : Items → Except Fault (List α)
  | .closed => .ok []
  | .stop fault => .error fault
  | .item value rest =>
    match read value with
    | .error fault => .error fault
    | .ok first => (rest.readAll read).map (first :: ·)

/-- Reads a list. -/
def readList {α : Type} (read : Read α) : Read (List α)
  | .array items => items.readAll read
  | tree => .error tree.mismatch

/-- The fault of items that a record in array form does not have. -/
def Items.surplus : Items → Except Fault Unit
  | .closed => .ok ()
  | .stop fault => .error fault
  | .item _ _ => .error .malformed

/-- Reads a variant by its name alone. -/
def readName {α : Type} (variant? : String → Option α) : Read α := fun tree ↦
  match readText? tree with
  | .error fault => .error fault
  | .ok name =>
    match variant? name with
    | some value => .ok value
    | none => .error .misfit

/-- Reads a variant by its name: a string, or an object whose only field has that name and is
`null`. -/
def readVariant {α : Type} (variant? : String → Option α) : Read α
  | .string (.ok name) =>
    match variant? name with
    | some value => .ok value
    | none => .error .misfit
  | .string (.error fault) => .error fault
  | .brokenString kept _ => .error kept
  | .absent fault => .error fault
  | .object .closed => .error .malformed
  | .object (.stop fault) => .error fault
  | .object (.unnamed tree) => .error tree.nameFault
  | .object (.brokenName kept _) => .error kept
  | .object (.entry (.error fault) _ _) => .error fault
  | .object (.entry (.ok name) value rest) =>
    match variant? name, value, rest with
    | none, _, _ => .error .misfit
    | some result, .null, .closed => .ok result
    | some _, .null, .stop fault => .error fault
    | some _, .null, _ => .error .malformed
    | some _, value, _ => .error value.mismatch
  | _ => .error .malformed

/-- One field of a draft: its name, whether the draft has it already, and how a value is read into
the draft. -/
structure Slot (δ : Type) where
  name : String
  isFilled : δ → Bool
  fill : Tree → δ → Except Fault δ

/-- How a record is put together from a draft in which fields may be missing. -/
structure Shape (α : Type) where
  Draft : Type
  empty : Draft
  slots : List (Slot Draft)
  finish : Draft → Except Fault α

namespace Shape

/-- The record without fields. -/
def done : Shape Unit := ⟨Unit, (), [], .ok⟩

/-- A record with one more field in front; a default makes up for a missing field. -/
def field {α β : Type} (name : String) (read : Read β) (default : Option β) (rest : Shape α) :
    Shape (β × α) where
  Draft := Option β × rest.Draft
  empty := (none, rest.empty)
  slots :=
    { name
      isFilled := fun draft ↦ draft.1.isSome
      fill := fun tree draft ↦ (read tree).map fun value ↦ (some value, draft.2) } ::
    rest.slots.map fun slot ↦
      { name := slot.name
        isFilled := fun draft ↦ slot.isFilled draft.2
        fill := fun tree draft ↦ (slot.fill tree draft.2).map fun filled ↦ (draft.1, filled) }
  finish := fun draft ↦
    match draft.1.or default, rest.finish draft.2 with
    | some value, .ok values => .ok (value, values)
    | _, _ => .error .misfit

/-- The record as a value of another type. -/
def map {α β : Type} (f : α → β) (shape : Shape α) : Shape β where
  Draft := shape.Draft
  empty := shape.empty
  slots := shape.slots
  finish := fun draft ↦ (shape.finish draft).map f

end Shape

/-- Reads the entries of an object into a draft. -/
def Entries.readInto {δ : Type} (slots : List (Slot δ)) (draft : δ) : Entries → Except Fault δ
  | .closed => .ok draft
  | .stop fault => .error fault
  | .unnamed value => .error value.nameFault
  | .brokenName kept _ => .error kept
  | .entry (.error fault) _ _ => .error fault
  | .entry (.ok name) value rest =>
    match slots.find? (·.name == name) with
    | none =>
      match value.passFault? with
      | some fault => .error fault
      | none => rest.readInto slots draft
    | some slot =>
      if slot.isFilled draft then .error .misfit
      else
        match slot.fill value draft with
        | .error fault => .error fault
        | .ok filled => rest.readInto slots filled

/-- Reads the items of an array into the fields of a draft one after the other, and returns the
items left. -/
def Items.readInto {δ : Type} : List (Slot δ) → δ → Items → Except Fault (δ × Items)
  | [], draft, items => .ok (draft, items)
  | _ :: _, draft, .closed => .ok (draft, .closed)
  | _ :: _, _, .stop fault => .error fault
  | slot :: slots, draft, .item value rest =>
    match slot.fill value draft with
    | .error fault => .error fault
    | .ok filled => rest.readInto slots filled

namespace Shape

/-- Reads a record out of the entries of an object. -/
def readEntries {α : Type} (shape : Shape α) (entries : Entries) : Except Fault α :=
  (entries.readInto shape.slots shape.empty).bind shape.finish

/-- Reads a record out of the items of an array. -/
def readItems {α : Type} (shape : Shape α) (items : Items) : Except Fault α :=
  match items.readInto shape.slots shape.empty with
  | .error fault => .error fault
  | .ok (draft, rest) =>
    match shape.finish draft with
    | .error fault => .error fault
    | .ok value => rest.surplus.map fun _ ↦ value

/-- Reads a record. -/
def read {α : Type} (shape : Shape α) : Read α
  | .object entries => shape.readEntries entries
  | .array items => shape.readItems items
  | tree => .error tree.mismatch

/-- Reads a record that must be stored as an object. -/
def readObject {α : Type} (shape : Shape α) : Read α
  | .object entries => shape.readEntries entries
  | .array _ => .error .misfit
  | tree => .error tree.mismatch

end Shape

end MethodPrint.Json
