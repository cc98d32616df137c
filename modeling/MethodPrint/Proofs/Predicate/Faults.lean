import Mathlib.Data.List.TakeWhile
import MethodPrint.Proofs.Predicate.Rendering

/-!
# Why features have no fingerprint

Features are rendered exactly if they are consistent, their flags have names and a list has room
for their opcodes. A fault that is reported can be seen in the features themselves: a mnemonic or
flags without a name, or two features that contradict each other. Opcodes without room make
rendering crash, unless a fault is met first.
-/

namespace MethodPrint

namespace RenderFault

/-- A fault that some features have: what it names is among them, and it does keep them from being
rendered. -/
def SeenIn (features : List Feature) : RenderFault → Prop
  | .unnamedFlags bits =>
    bits ≠ 0 ∧ ∃ flags, .accessFlags flags ∈ features ∧ AccessFlag.unnamed flags = bits
  | .unnamedOpcode mnemonic =>
    Opcode.name? mnemonic = none ∧ ∃ index, .opcodeAt index mnemonic ∈ features
  | .accessFlagsConflict first second =>
    first ≠ second ∧ .accessFlags first ∈ features ∧ .accessFlags second ∈ features
  | .returnTypeConflict first second =>
    first ≠ second ∧ .returnType first ∈ features ∧ .returnType second ∈ features
  | .parametersConflict first second =>
    first ≠ second ∧ .parameters first ∈ features ∧ .parameters second ∈ features
  | .opcodeConflict index first second => first ≠ second ∧
    (∃ mnemonic, .opcodeAt index mnemonic ∈ features ∧ Opcode.name? mnemonic = some first) ∧
    ∃ mnemonic, .opcodeAt index mnemonic ∈ features ∧ Opcode.name? mnemonic = some second
  | .reported _ => False

/-- More features have the faults of fewer. -/
theorem SeenIn.mono {fault : RenderFault} {features all : List Feature}
    (h : fault.SeenIn features) (hs : features ⊆ all) : fault.SeenIn all := by
  cases fault with
  | unnamedFlags bits =>
    obtain ⟨h0, flags, hf, hb⟩ := h
    exact ⟨h0, flags, hs hf, hb⟩
  | unnamedOpcode mnemonic =>
    obtain ⟨hn, index, ho⟩ := h
    exact ⟨hn, index, hs ho⟩
  | accessFlagsConflict first second => exact ⟨h.1, hs h.2.1, hs h.2.2⟩
  | returnTypeConflict first second => exact ⟨h.1, hs h.2.1, hs h.2.2⟩
  | parametersConflict first second => exact ⟨h.1, hs h.2.1, hs h.2.2⟩
  | opcodeConflict index first second =>
    obtain ⟨hne, ⟨a, ha, hfirst⟩, b, hb, hsecond⟩ := h
    exact ⟨hne, ⟨a, hs ha, hfirst⟩, b, hs hb, hsecond⟩
  | reported reason => exact h

/-- Features with a fault are not compatible. -/
theorem SeenIn.not_compatible {fault : RenderFault} {features : List Feature}
    (h : fault.SeenIn features) : ¬Compatible features := by
  intro hr
  cases fault with
  | unnamedFlags bits =>
    obtain ⟨h0, flags, hf, rfl⟩ := h
    exact h0 (hr.flagsNamed flags hf)
  | unnamedOpcode mnemonic =>
    obtain ⟨hn, index, ho⟩ := h
    simpa [hn] using hr.named ho
  | accessFlagsConflict first second => exact h.1 (hr.accessFlags h.2.1 h.2.2)
  | returnTypeConflict first second => exact h.1 (hr.returnType h.2.1 h.2.2)
  | parametersConflict first second => exact h.1 (hr.parameters h.2.1 h.2.2)
  | opcodeConflict index first second =>
    obtain ⟨hne, ⟨a, ha, hfirst⟩, b, hb, hsecond⟩ := h
    apply hne
    rw [← Option.some.injEq, ← hfirst, ← hsecond, hr.opcode ha hb]
  | reported reason => exact h

end RenderFault

namespace Clause

/-! ### Faults of one step -/

private theorem eq_of_opcodeName_eq_error {mnemonic : String} {fault : RenderFault}
    (h : opcodeName mnemonic = .error fault) :
    Opcode.name? mnemonic = none ∧ fault = .unnamedOpcode mnemonic := by
  unfold opcodeName at h
  split at h
  · cases h
  · next hn =>
    cases h
    exact ⟨hn, rfl⟩

private theorem exists_of_nameAt_eq_error {names : List (Nat × String)} {index : Nat}
    {name : String} {fault : RenderFault} (h : nameAt names index name = .error fault) :
    ∃ first, names.lookup index = some first ∧ first ≠ name ∧
      fault = .opcodeConflict index first name := by
  unfold nameAt at h
  split at h
  · cases h
  · next first hl =>
    split at h
    · cases h
    · next hne =>
      cases h
      exact ⟨first, hl, hne, rfl⟩

private theorem of_ite_eq_error {α ε : Type} {c : Prop} [Decidable c] {value : α} {error fault : ε}
    (h : (if c then .ok value else .error error) = (.error fault : Except ε α)) :
    ¬c ∧ error = fault := by
  split at h
  · cases h
  · next hc => exact ⟨hc, Except.error.inj h⟩

/-- A clause refuses a feature that has no name or contradicts those that it collects. -/
theorem Collects.seenIn_of_join? {features : List Feature} {clause : Clause}
    (h : clause.Collects features) {feature : Feature} {fault : RenderFault}
    (hj : clause.join? feature = some (.error fault)) : fault.SeenIn (features ++ [feature]) := by
  have hm {f : Feature} (hf : f ∈ features) : f ∈ features ++ [feature] :=
    List.mem_append_left _ hf
  have hlast : feature ∈ features ++ [feature] := by simp
  fun_cases join? clause feature with
  | case1 first flags =>
    obtain ⟨hne, rfl⟩ := of_ite_eq_error (Option.some.inj hj)
    exact ⟨hne, hm ((h first).mpr rfl), hlast⟩
  | case2 first type =>
    obtain ⟨hne, rfl⟩ := of_ite_eq_error (Option.some.inj hj)
    exact ⟨hne, hm ((h first).mpr rfl), hlast⟩
  | case3 first types =>
    obtain ⟨hne, rfl⟩ := of_ite_eq_error (Option.some.inj hj)
    exact ⟨hne, hm ((h first).mpr rfl), hlast⟩
  | case4 => cases hj
  | case5 => cases hj
  | case6 => cases hj
  | case7 names index opcode =>
    simp only [join?, Option.some.injEq] at hj
    cases hn : opcodeName opcode with
    | error unnamed =>
      rw [hn] at hj
      cases hj
      obtain ⟨hnone, rfl⟩ := eq_of_opcodeName_eq_error hn
      exact ⟨hnone, index, hlast⟩
    | ok name =>
      cases ha : nameAt names index name with
      | ok extended => simp [hn, ha, bind, Except.bind, pure, Except.pure] at hj
      | error conflict =>
        obtain rfl : conflict = fault := by simpa [hn, ha, bind, Except.bind] using hj
        obtain ⟨first, hl, hne, rfl⟩ := exists_of_nameAt_eq_error ha
        obtain ⟨before, after, rfl, _⟩ := List.lookup_eq_some_iff.mp hl
        obtain ⟨other, ho, hfirst⟩ := h.2 (index, first) (by simp)
        exact ⟨hne, ⟨other, hm ho, hfirst⟩, opcode, hlast, opcodeName_eq_ok_iff.mp hn⟩
  | case8 =>
    rw [join?] at hj
    · cases hj
    all_goals assumption

/-- Only a mnemonic without a name has no clause of its own. -/
theorem seenIn_of_ofFeature {feature : Feature} {fault : RenderFault}
    (h : ofFeature feature = .error fault) : fault.SeenIn [feature] := by
  cases feature with
  | opcodeAt index opcode =>
    cases hn : opcodeName opcode with
    | error unnamed =>
      rw [ofFeature, hn] at h
      cases h
      obtain ⟨hnone, rfl⟩ := eq_of_opcodeName_eq_error hn
      exact ⟨hnone, index, List.mem_singleton.mpr rfl⟩
    | ok name =>
      rw [ofFeature, hn] at h
      cases h
  | _ => cases h

/-! ### Faults of a run -/

/-- A feature that cannot be inserted shows why, alone or with those before it. -/
theorem seenIn_of_insert {features : List Feature} {clauses : List Clause}
    (h : ∀ c ∈ clauses, c.Collects features) {feature : Feature} {fault : RenderFault}
    (hi : insert clauses feature = .error fault) : fault.SeenIn (features ++ [feature]) := by
  induction clauses with
  | nil =>
    cases hf : ofFeature feature with
    | ok clause =>
      rw [insert, hf] at hi
      cases hi
    | error unnamed =>
      rw [insert, hf] at hi
      cases hi
      exact (seenIn_of_ofFeature hf).mono (List.subset_append_right _ _)
  | cons clause clauses ih =>
    obtain ⟨hc, h⟩ := List.forall_mem_cons.mp h
    rw [insert] at hi
    split at hi
    · next result hj =>
      cases result with
      | ok joined => cases hi
      | error refused =>
        cases hi
        exact hc.seenIn_of_join? hj
    · cases hr : insert clauses feature with
      | ok next =>
        rw [hr] at hi
        cases hi
      | error later =>
        rw [hr] at hi
        cases hi
        exact ih h hr

/-- Features that cannot be grouped show why. -/
theorem seenIn_of_ofFeatures {features : List Feature} {fault : RenderFault}
    (h : ofFeatures features = .error fault) : fault.SeenIn features := by
  induction features using List.reverseRecOn with
  | nil => cases h
  | append_singleton features feature ih =>
    rw [ofFeatures_concat] at h
    cases ho : ofFeatures features with
    | error earlier =>
      rw [ho] at h
      cases h
      exact (ih ho).mono (List.subset_append_left _ _)
    | ok clauses =>
      rw [ho] at h
      exact seenIn_of_insert (group_of_ofFeatures ho).collects h

/-- A clause that is at fault has flags without a name. -/
theorem Collects.seenIn_of_text {features : List Feature} {clause : Clause}
    (h : clause.Collects features) {fault : RenderFault}
    (ht : clause.text = .error (.fault fault)) : fault.SeenIn features := by
  obtain ⟨flags, rfl, hne, rfl⟩ := text_eq_fault_iff.mp ht
  exact ⟨hne, flags, (h flags).mpr rfl, rfl⟩

end Clause

/-- Features have the fault that is reported when they are rendered. -/
theorem seenIn_of_render {features : List Feature} {fault : RenderFault}
    (h : render features = .error (.fault fault)) : fault.SeenIn features := by
  cases ho : Clause.ofFeatures features with
  | error ungrouped =>
    rw [render_of_ofFeatures_eq_error ho] at h
    cases h
    exact Clause.seenIn_of_ofFeatures ho
  | ok clauses =>
    rw [render_of_ofFeatures_eq_ok ho, map_eq_error_iff] at h
    obtain ⟨clause, hc, ht⟩ := exists_of_mapM_eq_error h
    exact ((Clause.group_of_ofFeatures ho).collects clause hc).seenIn_of_text ht

/-! ### Crashes -/

/-- The features before the first opcode. -/
def beforeOpcodes (features : List Feature) : List Feature :=
  features.takeWhile (·.kind != .opcodeAt)

/-- Features with an opcode are split at the first one. -/
theorem exists_eq_beforeOpcodes_append {features : List Feature}
    (h : ∃ f ∈ features, f.kind = .opcodeAt) : ∃ first after,
      features = beforeOpcodes features ++ first :: after ∧ first.kind = .opcodeAt := by
  obtain ⟨f, hf, hk⟩ := h
  have hne : features.dropWhile (·.kind != .opcodeAt) ≠ [] := by
    intro hnil
    simpa [hk] using List.dropWhile_eq_nil_iff.mp hnil f hf
  obtain ⟨first, after, hd⟩ := List.exists_cons_of_ne_nil hne
  refine ⟨first, after, ?_, ?_⟩
  · rw [beforeOpcodes, ← hd, List.takeWhile_append_dropWhile]
  · have hk := List.head_dropWhile_not _ hne
    simpa [hd] using hk

/-- No opcode stands before the first one. -/
theorem kind_ne_of_mem_beforeOpcodes {features : List Feature} {feature : Feature}
    (h : feature ∈ beforeOpcodes features) : feature.kind ≠ .opcodeAt := by
  simpa using List.mem_takeWhile_imp h

namespace Clause

/-- Only the clause of the opcodes can be too long. -/
theorem kind_eq_of_not_fits {clause : Clause} (h : ¬clause.Fits) : clause.kind = .opcodeAt := by
  cases clause with
  | opcodes names => rfl
  | _ => exact absurd trivial h

/-- The flags of the clauses before that of the opcodes are those before the first opcode. -/
theorem Group.forall_named_before_iff {features : List Feature} {front back : List Clause}
    {clause : Clause} (h : Group features (front ++ clause :: back))
    (hk : clause.kind = .opcodeAt) : (∀ c ∈ front, c.Named) ↔
      ∀ flags, .accessFlags flags ∈ beforeOpcodes features → AccessFlag.unnamed flags = 0 := by
  have hkind : .opcodeAt ∈ (front ++ clause :: back).map kind := by simp [hk]
  obtain ⟨first, after, he, hfirst⟩ := exists_eq_beforeOpcodes_append ((h.kinds _).mp hkind)
  have hsub : beforeOpcodes features ⊆ features := List.takeWhile_subset _
  have ho : front.map kind = ((beforeOpcodes features).map Feature.kind).eraseDups := by
    rw [he] at h
    exact h.order_before (hk.trans hfirst.symm) fun f hf ↦
      hfirst ▸ kind_ne_of_mem_beforeOpcodes hf
  have hkinds (kind : FeatureKind) :
      (∃ c ∈ front, c.kind = kind) ↔ ∃ f ∈ beforeOpcodes features, f.kind = kind := by
    rw [← List.mem_map, ho, List.mem_eraseDups, List.mem_map]
  constructor
  · intro hn flags hf
    obtain ⟨c, hc, hck⟩ := (hkinds .accessFlags).mpr ⟨_, hf, rfl⟩
    cases c <;> cases hck
    next value =>
    obtain rfl := (h.collects _ (List.mem_append_left _ hc) flags).mp (hsub hf)
    exact hn _ hc
  · intro hn c hc
    cases c with
    | accessFlags value =>
      obtain ⟨f, hf, hfk⟩ := (hkinds .accessFlags).mp ⟨_, hc, rfl⟩
      cases f <;> cases hfk
      next flags =>
      obtain rfl := (h.collects _ (List.mem_append_left _ hc) flags).mp (hsub hf)
      exact hn _ hf
    | _ => trivial

/-- Grouped features make rendering crash if their opcodes do not fit, unless flags without a name
come first. -/
theorem Group.mapM_text_eq_crashed_iff {features : List Feature} {clauses : List Clause}
    (h : Group features clauses) : clauses.mapM text = .error .crashed ↔
      ¬Fitting features ∧
        ∀ flags, .accessFlags flags ∈ beforeOpcodes features → AccessFlag.unnamed flags = 0 := by
  rw [mapM_eq_error_iff, ← h.forall_fits_iff]
  constructor
  · rintro ⟨front, clause, back, rfl, hfront, hcrash⟩
    have hfits := text_eq_crashed_iff.mp hcrash
    refine ⟨fun hall ↦ hfits (hall clause (by simp)), ?_⟩
    refine (h.forall_named_before_iff (kind_eq_of_not_fits hfits)).mp fun c hc ↦ ?_
    obtain ⟨t, ht⟩ := hfront c hc
    exact (text_eq_ok_iff.mp ht).1
  · rintro ⟨hfits, hnamed⟩
    obtain ⟨clause, hm, hc⟩ : ∃ c ∈ clauses, ¬c.Fits := by simpa using hfits
    obtain ⟨front, back, rfl⟩ := List.append_of_mem hm
    have hk := kind_eq_of_not_fits hc
    refine ⟨front, clause, back, rfl, fun c hcf ↦ ?_, text_eq_crashed_iff.mpr hc⟩
    -- no clause in front is of the same kind, and no other kind can be too long
    have hcfits : c.Fits := by
      by_contra hn
      have hck := (kind_eq_of_not_fits hn).trans hk.symm
      exact h.kind_not_mem (List.mem_map.mpr ⟨c, List.mem_append_left _ hcf, hck⟩)
    exact ⟨_, text_eq_ok_iff.mpr ⟨(h.forall_named_before_iff hk).mpr hnamed c hcf, hcfits, rfl⟩⟩

end Clause

/-- Rendering crashes if the features are consistent and their opcodes do not fit, unless flags
without a name come before the first opcode. -/
theorem render_eq_crashed_iff {features : List Feature} :
    render features = .error .crashed ↔ Consistent features ∧ ¬Fitting features ∧
      ∀ flags, .accessFlags flags ∈ beforeOpcodes features → AccessFlag.unnamed flags = 0 := by
  cases ho : Clause.ofFeatures features with
  | error fault =>
    rw [render_of_ofFeatures_eq_error ho]
    constructor
    · exact nofun
    · rintro ⟨hc, _⟩
      obtain ⟨clauses, hg⟩ := Clause.exists_ofFeatures hc
      rw [ho] at hg
      cases hg
  | ok clauses =>
    have hg := Clause.group_of_ofFeatures ho
    rw [render_of_ofFeatures_eq_ok ho, map_eq_error_iff, hg.mapM_text_eq_crashed_iff,
      and_iff_right hg.consistent]

/-! ### Every outcome -/

/-- When features are rendered, and what happens to others. -/
structure RenderedIfCompatible (features : List Feature) (result : Except RenderFailure String) :
    Prop where
  succeeds_iff : (∃ text, result = .ok text) ↔ Compatible features ∧ Fitting features
  fails : ∀ fault, result = .error (.fault fault) → fault.SeenIn features
  refuses : ∀ fault : RenderFault, fault.SeenIn features → ∀ text, result ≠ .ok text
  crashes_iff : result = .error .crashed ↔ Consistent features ∧ ¬Fitting features ∧
    ∀ flags, .accessFlags flags ∈ beforeOpcodes features → AccessFlag.unnamed flags = 0
  unordered : ∀ others, (∀ f, f ∈ others ↔ f ∈ features) →
    ((∃ text, render others = .ok text) ↔ ∃ text, result = .ok text)

/-- Whatever the features: they are rendered exactly if they are consistent, all their flags have
names and their opcodes fit, whatever their order and number. A fault that is reported can be seen
in them. Only opcodes that do not fit make rendering crash. -/
theorem renderedIfCompatible_render (features : List Feature) :
    RenderedIfCompatible features (render features) where
  succeeds_iff := by
    rw [exists_render_iff]
    exact ⟨fun h ↦ ⟨h.toCompatible, h.fits⟩, fun h ↦ ⟨h.1, h.2⟩⟩
  fails _ := seenIn_of_render
  refuses _ hs text ht := hs.not_compatible (exists_render_iff.mp ⟨text, ht⟩).toCompatible
  crashes_iff := render_eq_crashed_iff
  unordered := by
    intro others hs
    rw [exists_render_iff, exists_render_iff]
    constructor
    · exact fun h ↦ h.mono fun f hf ↦ (hs f).mpr hf
    · exact fun h ↦ h.mono fun f hf ↦ (hs f).mp hf

/-- An opcode at the largest position makes rendering crash. It does so by itself, and before the
fault of flags that follow. -/
theorem render_largest_position :
    let opcode : Feature := .opcodeAt (2 ^ 64 - 1) "nop"
    let flags : Feature := .accessFlags 0x80000000
    Compatible [opcode] ∧ render [opcode] = .error .crashed ∧
      ¬((∃ text, render [opcode] = .ok text) ↔ Compatible [opcode]) ∧
      (RenderFault.unnamedFlags 0x80000000).SeenIn [opcode, flags] ∧
      render [opcode, flags] = .error .crashed := by
  intro opcode flags
  have hn : Opcode.name? "nop" = some "NOP" := by decide
  have hc : Compatible [opcode] :=
    { accessFlags := by simp [opcode]
      returnType := by simp [opcode]
      parameters := by simp [opcode]
      named := by simp [opcode, hn]
      opcode := by
        intro index a b ha hb
        simp only [opcode, List.mem_singleton, Feature.opcodeAt.injEq] at ha hb
        rw [ha.2, hb.2]
      flagsNamed := by simp [opcode] }
  have hr : render [opcode] = .error .crashed := by decide
  refine ⟨hc, hr, fun h ↦ ?_, ⟨by decide, _, List.mem_cons_of_mem _ List.mem_cons_self, by decide⟩,
    by decide⟩
  obtain ⟨text, ht⟩ := h.mpr hc
  rw [hr] at ht
  cases ht

end MethodPrint
