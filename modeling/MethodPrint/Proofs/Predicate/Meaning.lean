import MethodPrint.Proofs.Predicate.Rendering

/-!
# What a predicate accepts

A predicate that states some features accepts exactly the methods that meet each of them, where an
opcode is met by any opcode of the same name.
-/

namespace MethodPrint

namespace Predicate

/-- A pattern of opcode names matches if each name has its opcode. -/
theorem opcodesMatch_iff {method : Method} {start : Nat} {slots : List (Option String)} :
    opcodesMatch method start slots = true ↔
      ∀ index name, slots[index]? = some (some name) →
        opcodeNamed method (start + index) name = true := by
  induction slots generalizing start with
  | nil => simp [opcodesMatch]
  | cons slot slots ih =>
    have htail : opcodesMatch method (start + 1) slots = true ↔
        ∀ index name, (slot :: slots)[index + 1]? = some (some name) →
          opcodeNamed method (start + (index + 1)) name = true := by
      rw [ih]
      simp only [List.getElem?_cons_succ, Nat.add_assoc, Nat.add_comm 1]
    cases slot with
    | none =>
      rw [opcodesMatch, htail]
      constructor
      · intro h index name hi
        cases index with
        | zero => cases hi
        | succ index => exact h index name hi
      · exact fun h index ↦ h (index + 1)
    | some first =>
      rw [opcodesMatch, Bool.and_eq_true, htail]
      constructor
      · rintro ⟨h0, h⟩ index name hi
        cases index with
        | zero =>
          cases hi
          exact h0
        | succ index => exact h index name hi
      · exact fun h ↦ ⟨h 0 first rfl, fun index ↦ h (index + 1)⟩

private theorem opcodeNamed_iff {method : Method} {index : Nat} {opcode name : String}
    (hn : Opcode.name? opcode = some name) :
    opcodeNamed method index name = true ↔ (Feature.opcodeAt index opcode).MetBy method := by
  rw [opcodeNamed, beq_iff_eq, Option.bind_eq_some_iff]
  constructor
  · rintro ⟨instruction, hi, hname⟩
    exact ⟨instruction, name, hi, hname, hn⟩
  · rintro ⟨instruction, other, hi, hname, ho⟩
    exact ⟨instruction, hi, hname.trans (ho.symm.trans hn)⟩

private theorem all_iff {α : Type} [BEq α] [LawfulBEq α] {demand : Option α} {actual : α}
    {stated : α → Prop} (h : ∀ value, demand = some value ↔ stated value) :
    demand.all (actual == ·) = true ↔ ∀ value, stated value → actual = value := by
  simp only [← h]
  cases demand with
  | none => simp
  | some first => simp

private theorem forall_any_iff {α : Type} [DecidableEq α] {demand : List α}
    {operand : Instruction → Option α} {method : Method} {features : List Feature}
    {value? : Feature → Option α} (h : demand = (features.filterMap value?).eraseDups) :
    demand.all (fun value ↦ method.instructions.any (operand · == some value)) = true ↔
      ∀ f ∈ features, ∀ value, value? f = some value →
        ∃ instruction ∈ method.instructions, operand instruction = some value := by
  simp only [h, List.all_eq_true, List.mem_eraseDups, List.mem_filterMap, List.any_eq_true,
    beq_iff_eq]
  constructor
  · exact fun h f hf value hv ↦ h value ⟨f, hf, hv⟩
  · rintro h value ⟨f, hf, hv⟩
    exact h f hf value hv

/-- A predicate accepts the methods that meet all features it states. -/
theorem States.accepts_iff {features : List Feature} {predicate : Predicate}
    (h : predicate.States features) {method : Method} :
    predicate.accepts method = true ↔ ∀ f ∈ features, f.MetBy method := by
  simp only [accepts, Bool.and_eq_true, all_iff h.accessFlags, all_iff h.returnType,
    all_iff h.parameters, forall_any_iff h.strings, forall_any_iff h.invokes,
    forall_any_iff h.literals, opcodesMatch_iff, Nat.zero_add]
  constructor
  · rintro ⟨⟨⟨⟨⟨⟨haccess, hreturn⟩, hparameters⟩, hstrings⟩, hinvokes⟩, hliterals⟩, hopcodes⟩ f hf
    cases f with
    | accessFlags flags => exact haccess flags hf
    | returnType type => exact hreturn type hf
    | parameters types => exact hparameters types hf
    | stringLiteral value => exact hstrings _ hf value rfl
    | invokedMethod signature => exact hinvokes _ hf signature rfl
    | literal value => exact hliterals _ hf value rfl
    | opcodeAt index opcode =>
      obtain ⟨name, hn, hi⟩ := h.named index opcode hf
      exact (opcodeNamed_iff hn).mp (hopcodes index name hi)
  · intro hm
    refine ⟨⟨⟨⟨⟨⟨fun _ ↦ hm _, fun _ ↦ hm _⟩, fun _ ↦ hm _⟩, ?_⟩, ?_⟩, ?_⟩, ?_⟩
    · intro f hf value hv
      cases f <;> cases hv
      exact hm _ hf
    · intro f hf value hv
      cases f <;> cases hv
      exact hm _ hf
    · intro f hf value hv
      cases f <;> cases hv
      exact hm _ hf
    · intro index name hi
      by_cases ho : ∃ opcode, .opcodeAt index opcode ∈ features
      · obtain ⟨opcode, ho⟩ := ho
        obtain ⟨other, hn, hi'⟩ := h.named index opcode ho
        rw [hi, Option.some.injEq, Option.some.injEq] at hi'
        subst hi'
        exact (opcodeNamed_iff hn).mpr (hm _ ho)
      · exact absurd hi (h.gap index (not_exists.mp ho) name)

end Predicate

end MethodPrint
