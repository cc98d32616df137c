import MethodPrint.Json.Fault

/-!
# What a reader meets in a text

A JSON text as a reader meets it from left to right, with its faults where they stand. A reader
stops at the first thing that keeps it from going on, and that need not be the first fault of the
text: a value of the wrong shape is refused before what follows it is looked at, and a value that
nobody asked for is passed over with less care than one that is kept.
-/

namespace MethodPrint.Json

mutual

/-- A value, or what stands in its place. -/
inductive Tree where
  /-- No value starts here. -/
  | absent (fault : Fault)
  | null
  | bool (value : Bool)
  /-- A number that is written as an integer and has at most 64 bits. -/
  | integer (value : Int)
  /-- Any other number. -/
  | real
  /-- A number beyond all floating point numbers: no fault in a value that is passed over. -/
  | huge
  /-- A string; half of a surrogate pair in it is no fault if the string is passed over. -/
  | string (value : Except Fault String)
  /-- A string that breaks off: the fault for a reader that keeps it, and for one that does not. -/
  | brokenString (kept passed : Fault)
  /-- A number or word that breaks off, with both faults. -/
  | brokenScalar (kept passed : Fault)
  | array (items : Items)
  | object (entries : Entries)

/-- The items of an array. -/
inductive Items where
  | closed
  /-- Neither an item nor the end of the array follows. -/
  | stop (fault : Fault)
  | item (value : Tree) (rest : Items)

/-- The entries of an object. -/
inductive Entries where
  | closed
  /-- Neither an entry nor the end of the object follows. -/
  | stop (fault : Fault)
  /-- Where a name has to stand there is something else. -/
  | unnamed (value : Tree)
  /-- A name breaks off; the faults are as for strings. -/
  | brokenName (kept passed : Fault)
  | entry (name : Except Fault String) (value : Tree) (rest : Entries)

end

/-- The nesting at which readers of kept values give up. -/
def nestingLimit : Nat := 128

namespace Tree

/-- The fault of a missing name. -/
def nameFault : Tree → Fault
  | .absent fault => fault
  | _ => .malformed

/-- The fault of a value that is read where another shape is expected. A scalar is read to its end
first, so that its own fault comes before the misfit. -/
def mismatch : Tree → Fault
  | .absent fault => fault
  | .brokenString kept _ => kept
  | .brokenScalar kept _ => kept
  | .string (.error fault) => fault
  | .huge => .malformed
  | _ => .misfit

end Tree

/-- The fault of a read that has one. -/
def faultOf? {α : Type} : Except Fault α → Option Fault
  | .error fault => some fault
  | .ok _ => none

mutual

/-- The first fault for a reader that passes over a value. -/
def Tree.passFault? : Tree → Option Fault
  | .absent fault => some fault
  | .brokenString _ passed => some passed
  | .brokenScalar _ passed => some passed
  | .array items => items.passFault?
  | .object entries => entries.passFault?
  | _ => none

/-- The first fault for a reader that passes over items. -/
def Items.passFault? : Items → Option Fault
  | .closed => none
  | .stop fault => some fault
  | .item value rest => value.passFault?.or rest.passFault?

/-- The first fault for a reader that passes over entries. -/
def Entries.passFault? : Entries → Option Fault
  | .closed => none
  | .stop fault => some fault
  | .unnamed value => some value.nameFault
  | .brokenName _ passed => some passed
  | .entry _ value rest => value.passFault?.or rest.passFault?

end

mutual

/-- The first fault for a reader that keeps a value whatever its shape, within as many arrays and
objects as `depth` says. -/
def Tree.keepFault? (depth : Nat) : Tree → Option Fault
  | .absent fault => some fault
  | .brokenString kept _ => some kept
  | .brokenScalar kept _ => some kept
  | .string value => faultOf? value
  | .huge => some .malformed
  | .array items =>
    if depth + 1 < nestingLimit then items.keepFault? (depth + 1) else some .malformed
  | .object entries =>
    if depth + 1 < nestingLimit then entries.keepFault? (depth + 1) else some .malformed
  | _ => none

/-- The first fault for a reader that keeps items. -/
def Items.keepFault? (depth : Nat) : Items → Option Fault
  | .closed => none
  | .stop fault => some fault
  | .item value rest => (value.keepFault? depth).or (rest.keepFault? depth)

/-- The first fault for a reader that keeps entries. -/
def Entries.keepFault? (depth : Nat) : Entries → Option Fault
  | .closed => none
  | .stop fault => some fault
  | .unnamed value => some value.nameFault
  | .brokenName kept _ => some kept
  | .entry name value rest =>
    (faultOf? name).or ((value.keepFault? depth).or (rest.keepFault? depth))

end

end MethodPrint.Json
