import MethodPrint.Proofs.Json.Restating

/-!
# Records are read back

A record is put together from the fields of an object in any order: every field is read where it
stands, a missing one holds its default, and names of other fields are passed over. Lists and
variants are read back one by one.
-/

namespace MethodPrint.Json

/-! ### Records -/

private theorem readInto_entry {δ : Type} (slots : List (Slot δ)) (draft : δ) (name : String)
    (value : Value) (rest : Entries) :
    (Entries.entry (.ok name) value.tree rest).readInto slots draft =
      match slots.find? (·.name == name) with
      | none => rest.readInto slots draft
      | some slot =>
        if slot.isFilled draft then .error .misfit
        else (slot.fill value.tree draft).bind fun filled ↦ rest.readInto slots filled := by
  rw [Entries.readInto, value.passFault?_tree]
  cases slots.find? (·.name == name) with
  | none => rfl
  | some slot =>
    dsimp only
    cases slot.fill value.tree draft with
    | error fault => rfl
    | ok filled => rfl

/-- A slot of the other fields as a slot of the record with one more field in front. -/
private def Slot.behind {δ β : Type} (slot : Slot δ) : Slot (Option β × δ) where
  name := slot.name
  isFilled := fun draft ↦ slot.isFilled draft.2
  fill := fun tree draft ↦ (slot.fill tree draft.2).map fun filled ↦ (draft.1, filled)

namespace Shape

variable {α β : Type} {name : String} {read : Read β} {default : Option β} {rest : Shape α}

/-- The names of the fields of a record. -/
def names (shape : Shape α) : List String := shape.slots.map (·.name)

@[simp] theorem names_done : done.names = [] := rfl

@[simp] theorem names_field : (field name read default rest).names = name :: rest.names := by
  simp [names, field, Function.comp_def]

/-- The slots of a record: that of its first field, and those of the others. -/
private def fieldSlots (name : String) (read : Read β) (rest : Shape α) :
    List (Slot (Option β × rest.Draft)) :=
  { name
    isFilled := fun draft ↦ draft.1.isSome
    fill := fun tree draft ↦ (read tree).map fun value ↦ (some value, draft.2) } ::
    rest.slots.map Slot.behind

private theorem readInto_entry_of_ne {other : String} (h : name ≠ other) {value : Value}
    {entries : Entries} {first last : Option β}
    (hr : ∀ draft, entries.readInto (fieldSlots name read rest) (first, draft) =
      (entries.readInto rest.slots draft).map (last, ·)) (draft : rest.Draft) :
    (Entries.entry (.ok other) value.tree entries).readInto (fieldSlots name read rest)
        (first, draft) =
      ((Entries.entry (.ok other) value.tree entries).readInto rest.slots draft).map (last, ·) := by
  have hf : (fieldSlots name read rest).find? (·.name == other) =
      (rest.slots.find? (·.name == other)).map Slot.behind := by
    rw [fieldSlots, List.find?_cons_of_neg (by simpa using h), List.find?_map]
    rfl
  rw [readInto_entry, readInto_entry, hf]
  cases rest.slots.find? (·.name == other) with
  | none => exact hr draft
  | some slot =>
    simp only [Option.map_some, Slot.behind]
    split
    · rfl
    · cases slot.fill value.tree draft with
      | error fault => rfl
      | ok filled => exact hr filled

private theorem readInto_of_not_mem {fields : List (String × Value)}
    (h : name ∉ fields.map Prod.fst) (first : Option β) (draft : rest.Draft) :
    (fieldsTree fields).readInto (fieldSlots name read rest) (first, draft) =
      ((fieldsTree fields).readInto rest.slots draft).map (first, ·) := by
  induction fields generalizing draft with
  | nil => rfl
  | cons field fields ih =>
    rw [List.map_cons, List.mem_cons, not_or] at h
    exact readInto_entry_of_ne h.1 (ih h.2) draft

private theorem readInto_of_mem {fields : List (String × Value)}
    (hn : (fields.map Prod.fst).Nodup) (hr : name ∉ rest.names) {value : Value} {result : β}
    (hm : (name, value) ∈ fields) (hv : read value.tree = .ok result) (draft : rest.Draft) :
    (fieldsTree fields).readInto (fieldSlots name read rest) (none, draft) =
      ((fieldsTree fields).readInto rest.slots draft).map (some result, ·) := by
  induction fields generalizing draft with
  | nil => cases hm
  | cons field fields ih =>
    obtain ⟨hf, hn⟩ := List.nodup_cons.mp hn
    rcases List.mem_cons.mp hm with rfl | hm
    · have hs : rest.slots.find? (·.name == name) = none := by
        rw [List.find?_eq_none]
        intro slot hslot he
        exact hr (List.mem_map.mpr ⟨slot, hslot, by simpa using he⟩)
      rw [fieldsTree, readInto_entry, readInto_entry, hs]
      simp [fieldSlots, hv, Except.map, Except.bind]
      exact readInto_of_not_mem hf (some result) draft
    · have hne : name ≠ field.1 := fun he ↦ hf (he ▸ List.mem_map_of_mem (f := Prod.fst) hm)
      exact readInto_entry_of_ne hne (ih hn hm) draft

/-- What the fields of an object give for a field: the value that is read where its name stands, or
the default if the name is missing. -/
def Gives (fields : List (String × Value)) (name : String) (read : Read β) (default : Option β)
    (result : β) : Prop :=
  (∃ value, (name, value) ∈ fields ∧ read value.tree = .ok result) ∨
    (name ∉ fields.map Prod.fst ∧ default = some result)

/-- The record without fields is read from any object. -/
theorem readEntries_done (fields : List (String × Value)) :
    done.readEntries (fieldsTree fields) = .ok () := by
  have h : (fieldsTree fields).readInto done.slots done.empty = .ok () := by
    induction fields with
    | nil => rfl
    | cons field fields ih =>
      rw [fieldsTree, readInto_entry]
      exact ih
  rw [readEntries, h]
  rfl

/-- Reading a record as a value of another type. -/
theorem readEntries_map (f : α → β) (shape : Shape α) (entries : Entries) :
    (shape.map f).readEntries entries = (shape.readEntries entries).map f := by
  rw [readEntries, readEntries]
  change (entries.readInto shape.slots shape.empty).bind
    (fun draft ↦ (shape.finish draft).map f) = _
  cases entries.readInto shape.slots shape.empty with
  | error fault => rfl
  | ok draft => rfl

/-- A record is read if its first field is given and the others are read. -/
theorem readEntries_field {fields : List (String × Value)} (hn : (fields.map Prod.fst).Nodup)
    (hr : name ∉ rest.names) {result : β} (h : Gives fields name read default result)
    {others : α} (ho : rest.readEntries (fieldsTree fields) = .ok others) :
    (field name read default rest).readEntries (fieldsTree fields) = .ok (result, others) := by
  obtain ⟨first, hfirst, hor⟩ : ∃ first, (fieldsTree fields).readInto (fieldSlots name read rest)
      (none, rest.empty) = ((fieldsTree fields).readInto rest.slots rest.empty).map (first, ·) ∧
      first.or default = some result := by
    rcases h with ⟨value, hm, hv⟩ | ⟨hm, hd⟩
    · exact ⟨some result, readInto_of_mem hn hr hm hv rest.empty, rfl⟩
    · exact ⟨none, readInto_of_not_mem hm none rest.empty, hd⟩
  change ((fieldsTree fields).readInto (fieldSlots name read rest) (none, rest.empty)).bind
    (field name read default rest).finish = _
  rw [readEntries] at ho
  rw [hfirst]
  cases hd : (fieldsTree fields).readInto rest.slots rest.empty with
  | error fault =>
    rw [hd] at ho
    cases ho
  | ok draft =>
    rw [hd] at ho
    change rest.finish draft = .ok others at ho
    change (field name read default rest).finish (first, draft) = _
    simp only [field, hor, ho]

end Shape

/-! ### Restated values -/

/-- A value is read as a result however it is stated. -/
def Recovers {α : Type} (read : Read α) (value : Value) (result : α) : Prop :=
  ∀ other, value.Restates other → read other.tree = .ok result

section

variable {α β : Type} {fields others : List (String × Value)}

/-- A restated object gives what is stored in its fields, and the default of one that may be left
out. -/
theorem Restated.gives (h : Restated fields others) {name : String} {value : Value}
    (hm : (name, value) ∈ fields) {read : Read β} {default : Option β} {result : β}
    (hr : Recovers read value result)
    (hd : (name, value) ∈ omittable → default = some result) :
    Shape.Gives others name read default result := by
  rcases h.mem_or_omitted hm with ⟨other, ho, hm⟩ | ⟨hm, ho⟩
  · exact .inl ⟨other, hm, hr other ho⟩
  · exact .inr ⟨hm, hd ho⟩

/-- A field that is not stored has its default. -/
theorem Restated.gives_default (h : Restated fields others) {name : String}
    (hm : name ∉ fields.map Prod.fst) {read : Read β} {result : β} :
    Shape.Gives others name read (some result) result := by
  refine .inr ⟨fun ho ↦ hm ?_, rfl⟩
  obtain ⟨field, hf, rfl⟩ := List.mem_map.mp ho
  obtain ⟨value, hv, _⟩ := h.exists_of_mem hf
  exact List.mem_map.mpr ⟨_, hv, rfl⟩

/-- A record is read from a restated object if its first field may not be left out and is recovered
from it, and the others are read. -/
theorem Restated.readEntries_field (h : Restated fields others) {name : String} {value : Value}
    (hm : (name, value) ∈ fields) {read : Read β} {result : β} (hr : Recovers read value result)
    {rest : Shape α} {results : α} (ho : rest.readEntries (fieldsTree others) = .ok results)
    (hd : (name, value) ∉ omittable := by simp [omittable])
    (hn : name ∉ rest.names := by simp) :
    (Shape.field name read none rest).readEntries (fieldsTree others) = .ok (result, results) :=
  Shape.readEntries_field h.nodup hn (h.gives hm hr fun hm ↦ absurd hm hd) ho

/-- A record is read from a restated object if its first field is recovered from it or left out with
its default, and the others are read. -/
theorem Restated.readEntries_default (h : Restated fields others) {name : String} {value : Value}
    (hm : (name, value) ∈ fields) {read : Read β} {default result : β}
    (hr : Recovers read value result) (hd : (name, value) ∈ omittable → default = result)
    {rest : Shape α} {results : α} (ho : rest.readEntries (fieldsTree others) = .ok results)
    (hn : name ∉ rest.names := by simp) :
    (Shape.field name read (some default) rest).readEntries (fieldsTree others) =
      .ok (result, results) :=
  Shape.readEntries_field h.nodup hn (h.gives hm hr fun hm ↦ congrArg some (hd hm)) ho

/-- A stored object is recovered by a reader that reads it from every restatement of its fields. -/
theorem recovers_object {read : Read α} {result : α} (hn : (fields.map Prod.fst).Nodup)
    (h : ∀ others, Restated fields others → read (.object (fieldsTree others)) = .ok result) :
    Recovers read (.object fields) result := by
  intro other hr
  obtain ⟨others, rfl, ho⟩ := hr.exists_restated hn
  exact h others ho

/-- A stored record is recovered if it is read from every restatement of its fields. -/
theorem Shape.recovers {shape : Shape α} {result : α} (hn : (fields.map Prod.fst).Nodup)
    (h : ∀ others, Restated fields others →
      shape.readEntries (fieldsTree others) = .ok result) :
    Recovers shape.read (.object fields) result := recovers_object hn h

end

/-- What is recovered as a value of one type is recovered as its image in another. -/
theorem Recovers.map {α β : Type} {read : Read α} {value : Value} {result : α}
    (h : Recovers read value result) (f : α → β) :
    Recovers (fun tree ↦ (read tree).map f) value (f result) := by
  intro other hr
  dsimp only
  rw [h other hr]
  rfl

/-- What is recovered is recovered from a value that was kept before. -/
theorem Recovers.ofKept {α : Type} {read : Read α} {value : Value} {result : α}
    (h : Recovers read value result) : Recovers read.ofKept value result := by
  intro other hr
  rw [Read.ofKept, h other hr]
  rfl

/-- A stored list is recovered if its items are. -/
theorem recovers_list {α : Type} {read : Read α} {stored : α → Value} {values : List α}
    (h : ∀ value ∈ values, Recovers read (stored value) value) :
    Recovers (readList read) (.array (values.map stored)) values := by
  intro other hr
  cases hr with
  | @array _ others hi =>
    change (itemsTree others).readAll read = .ok values
    induction values generalizing others with
    | nil => cases hi; rfl
    | cons value values ih =>
      obtain ⟨hv, h⟩ := List.forall_mem_cons.mp h
      cases hi with
      | cons hr hi =>
        rw [itemsTree, Items.readAll, hv _ hr, ih h hi]
        rfl

/-- A stored string is recovered. -/
theorem recovers_string (value : String) : Recovers readText? (.string value) value := by
  rintro _ ⟨⟩
  rfl

/-- A stored number is recovered by a reader of integers that accepts it. -/
theorem recovers_integer {α : Type} {accept : Int → Option α} {value : Int} {result : α}
    (hl : Int64.minValue.toInt ≤ value) (hu : value < UInt64.size)
    (h : accept value = some result) : Recovers (readInteger accept) (.number value) result := by
  rintro _ ⟨⟩
  rw [Value.tree, integerTree_of_bounds hl hu, readInteger, h]

/-- A stored natural number is recovered below a bound of at most 64 bits. -/
theorem recovers_natBelow {bound n : Nat} (hb : bound ≤ UInt64.size) (hn : n < bound) :
    Recovers (readNatBelow bound) (.number n) n := by
  apply recovers_integer
  · have : Int64.minValue.toInt ≤ 0 := by decide
    omega
  · omega
  · rw [if_pos (by omega), Int.toNat_natCast]

/-- A stored natural number of 64 bits is recovered. -/
theorem recovers_nat64 {n : Nat} (h : n < UInt64.size) : Recovers readNat64 (.number n) n :=
  recovers_natBelow (Nat.le_refl _) h

/-- A stored word of 32 bits is recovered. -/
theorem recovers_word32 (word : UInt32) : Recovers readWord32 (.number word.toNat) word := by
  intro other hr
  rw [readWord32, recovers_natBelow (by decide) word.toNat_lt other hr]
  simp [Except.map]

/-- A stored signed number of 64 bits is recovered. -/
theorem recovers_int64 (value : Int64) : Recovers readInt64 (.number value.toInt) value := by
  apply recovers_integer value.minValue_le_toInt
  · have h := value.toInt_le
    have : Int64.maxValue.toInt < UInt64.size := by decide
    omega
  · rw [if_pos ⟨value.minValue_le_toInt, value.toInt_le⟩, Int64.ofInt_toInt]

/-- A stored value that is not `null` is recovered where there may be none. -/
theorem recovers_optional {α : Type} {read : Read α} {value : Value} {result : α}
    (h : Recovers read value result) (hn : read .null ≠ .ok result) :
    Recovers (readOptional read) value (some result) := by
  intro other hr
  have ho := h other hr
  unfold readOptional
  split
  · next he =>
    rw [he] at ho
    exact absurd ho hn
  · rw [ho]
    rfl

/-- A variant that is stored by its name is recovered by this name alone. -/
theorem recovers_name {α : Type} {variant? : String → Option α} {name : String} {result : α}
    (h : variant? name = some result) : Recovers (readName variant?) (.string name) result := by
  rintro _ ⟨⟩
  simp [Value.tree, readName, readText?, h]

/-- A variant that is stored by its name is recovered. -/
theorem recovers_variant {α : Type} {variant? : String → Option α} {name : String} {result : α}
    (h : variant? name = some result) : Recovers (readVariant variant?) (.string name) result := by
  rintro _ ⟨⟩
  simp [Value.tree, readVariant, h]

end MethodPrint.Json
