import Mathlib.Data.List.Induction
import Mathlib.Data.List.Nodup
import MethodPrint.Feature.Extract
import MethodPrint.Predicate.Basic

/-!
# Features of methods

Which features extraction gives, and what a feature says about a method. Opcodes are told apart by
mnemonic in features and by name in predicates: this is the only difference between carrying a
feature and meeting what it says.
-/

namespace MethodPrint

/-- One more value adds nothing to the distinct values unless it is new. -/
theorem eraseDups_concat {α : Type} [DecidableEq α] (values : List α) (value : α) :
    (values ++ [value]).eraseDups =
      if value ∈ values then values.eraseDups else values.eraseDups ++ [value] := by
  rw [List.eraseDups_append]
  by_cases h : value ∈ values
  · simp [List.removeAll, h]
  · simp [List.removeAll, h, List.eraseDups_cons]

/-- Distinct values are distinct. -/
theorem nodup_eraseDups {α : Type} [DecidableEq α] (values : List α) : values.eraseDups.Nodup := by
  induction values using List.reverseRecOn with
  | nil => exact List.nodup_nil
  | append_singleton values value ih =>
    rw [eraseDups_concat]
    split
    · exact ih
    · next h =>
      rw [List.nodup_append_comm, List.singleton_append, List.nodup_cons]
      exact ⟨fun hm ↦ h (List.mem_eraseDups.mp hm), ih⟩

namespace Feature

/-- Whether a method has the property that a feature states, where opcodes go by their names. -/
def MetBy (method : Method) : Feature → Prop
  | .accessFlags flags => AccessFlag.named method.accessFlags = flags
  | .returnType type => method.returnType = type
  | .parameters types => method.parameters = types
  | .stringLiteral value => ∃ instruction ∈ method.instructions, instruction.string = some value
  | .invokedMethod signature =>
    ∃ instruction ∈ method.instructions, instruction.method = some signature
  | .literal value => ∃ instruction ∈ method.instructions, instruction.literal = some value
  | .opcodeAt index opcode =>
    ∃ instruction name, method.instructions[index]? = some instruction ∧
      Opcode.name? instruction.opcode = some name ∧ Opcode.name? opcode = some name

end Feature

namespace Method

private theorem opcodeAt_mem_opcodeFeatures {window index : Nat} {method : Method}
    {opcode : String} :
    .opcodeAt index opcode ∈ method.opcodeFeatures window ↔
      index < window ∧ ∃ instruction, method.instructions[index]? = some instruction ∧
        instruction.opcode = opcode := by
  simp only [opcodeFeatures, List.mem_map, Prod.exists, Feature.opcodeAt.injEq,
    List.mem_zipIdx_iff_getElem?, List.getElem?_take]
  constructor
  · rintro ⟨instruction, i, h, rfl, rfl⟩
    split at h
    · next hw => exact ⟨hw, instruction, h, rfl⟩
    · cases h
  · rintro ⟨hw, instruction, h, rfl⟩
    exact ⟨instruction, index, by rw [if_pos hw, h], rfl, rfl⟩

private theorem kind_of_mem_opcodeFeatures {window : Nat} {method : Method} {feature : Feature}
    (h : feature ∈ method.opcodeFeatures window) : feature.kind = .opcodeAt := by
  obtain ⟨_, _, rfl⟩ := List.mem_map.mp h
  rfl

/-- A method carries the mnemonic of each instruction within the window. -/
theorem opcodeAt_mem_features {window index : Nat} {method : Method} {opcode : String} :
    .opcodeAt index opcode ∈ method.features window ↔
      index < window ∧ ∃ instruction, method.instructions[index]? = some instruction ∧
        instruction.opcode = opcode := by
  rw [← opcodeAt_mem_opcodeFeatures]
  simp [features, signatureFeatures, operandFeatures]

/-- A method carries one mnemonic at most for each position. -/
theorem opcodeAt_mem_features_inj {window index : Nat} {method : Method} {a b : String}
    (ha : .opcodeAt index a ∈ method.features window)
    (hb : .opcodeAt index b ∈ method.features window) : a = b := by
  obtain ⟨_, instruction, hi, rfl⟩ := opcodeAt_mem_features.mp ha
  obtain ⟨_, other, ho, rfl⟩ := opcodeAt_mem_features.mp hb
  rw [hi, Option.some.injEq] at ho
  rw [ho]

/-- An opcode within the window is met by carrying any mnemonic of its name at its position. -/
theorem metBy_opcodeAt_iff {window index : Nat} {method : Method} {opcode : String}
    (hw : index < window) (hn : (Opcode.name? opcode).isSome) :
    (Feature.opcodeAt index opcode).MetBy method ↔
      ∃ mnemonic, .opcodeAt index mnemonic ∈ method.features window ∧
        Opcode.name? mnemonic = Opcode.name? opcode := by
  constructor
  · rintro ⟨instruction, name, hi, hname, ho⟩
    exact ⟨_, opcodeAt_mem_features.mpr ⟨hw, instruction, hi, rfl⟩, hname.trans ho.symm⟩
  · rintro ⟨mnemonic, hm, he⟩
    obtain ⟨_, instruction, hi, rfl⟩ := opcodeAt_mem_features.mp hm
    obtain ⟨name, ho⟩ := Option.isSome_iff_exists.mp hn
    exact ⟨instruction, name, hi, he.trans ho, ho⟩

/-- Carrying a feature that is not an opcode and meeting what it says are the same. -/
theorem mem_features_iff_metBy {window : Nat} {method : Method} {feature : Feature}
    (h : feature.kind ≠ .opcodeAt) :
    feature ∈ method.features window ↔ feature.MetBy method := by
  have hn : feature ∉ method.opcodeFeatures window := fun hm ↦ h (kind_of_mem_opcodeFeatures hm)
  rw [features, List.mem_append, or_iff_left hn]
  cases feature with
  | opcodeAt => exact absurd rfl h
  | _ => simp [signatureFeatures, operandFeatures, Feature.MetBy, eq_comm]

/-- A carried feature is met, unless it is an opcode without a name. -/
theorem metBy_of_mem_features {window : Nat} {method : Method} {feature : Feature}
    (hn : ∀ index opcode, feature = .opcodeAt index opcode → (Opcode.name? opcode).isSome)
    (h : feature ∈ method.features window) : feature.MetBy method := by
  cases feature with
  | opcodeAt index opcode =>
    obtain ⟨name, hname⟩ := Option.isSome_iff_exists.mp (hn index opcode rfl)
    obtain ⟨_, instruction, hi, rfl⟩ := opcodeAt_mem_features.mp h
    exact ⟨instruction, name, hi, hname, hname⟩
  | _ => exact (mem_features_iff_metBy (fun hk ↦ by cases hk)).mp h

end Method

end MethodPrint
