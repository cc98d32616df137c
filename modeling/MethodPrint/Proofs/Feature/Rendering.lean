import MethodPrint.Proofs.Predicate.Rendering

/-!
# Rendering the features of a method

One thing only can keep features of a method from being rendered: a mnemonic within the window that
has no name. All other faults are ruled out, since a method has one value of each kind that admits
one value, keeps named flags only, and has one opcode at each position. Nor does rendering crash,
since a list has room for a name for every instruction of the method.
-/

namespace MethodPrint

/-- Some opcode has no name. -/
def HasUnnamedOpcode (features : List Feature) : Prop :=
  ∃ index opcode, .opcodeAt index opcode ∈ features ∧ Opcode.name? opcode = none

/-- A list has room for the opcodes of a method. -/
theorem Method.fitting_of_subset {window : Nat} {method : Method} {features : List Feature}
    (hs : features ⊆ method.features window) : Fitting features := by
  intro index opcode ho
  obtain ⟨_, instruction, hi, _⟩ := opcodeAt_mem_features.mp (hs ho)
  have hlt := (List.getElem?_eq_some_iff.mp hi).1
  exact Nat.lt_of_lt_of_le hlt method.fits

/-- Features of a method can be rendered together unless an opcode among them has no name. -/
theorem Method.renderable_iff_of_subset {window : Nat} {method : Method} {features : List Feature}
    (hs : features ⊆ method.features window) :
    Renderable features ↔ ¬HasUnnamedOpcode features := by
  constructor
  · rintro h ⟨index, opcode, hm, hn⟩
    have hs := h.named hm
    rw [hn] at hs
    cases hs
  · intro h
    have hmet : ∀ f ∈ features, f.kind ≠ .opcodeAt → f.MetBy method :=
      fun _ hm hk ↦ (mem_features_iff_metBy hk).mp (hs hm)
    exact {
      accessFlags := fun ha hb ↦ Eq.trans (Eq.symm (hmet _ ha nofun)) (hmet _ hb nofun)
      returnType := fun ha hb ↦ Eq.trans (Eq.symm (hmet _ ha nofun)) (hmet _ hb nofun)
      parameters := fun ha hb ↦ Eq.trans (Eq.symm (hmet _ ha nofun)) (hmet _ hb nofun)
      named := by
        intro index opcode hm
        rw [← Option.ne_none_iff_isSome]
        exact fun hn ↦ h ⟨index, opcode, hm, hn⟩
      opcode := by
        intro index a b ha hb
        rw [opcodeAt_mem_features_inj (hs ha) (hs hb)]
      flagsNamed := by
        intro flags hm
        have hf : AccessFlag.named method.accessFlags = flags := hmet _ hm nofun
        rw [← hf]
        exact AccessFlag.unnamed_named _
      fits := fitting_of_subset hs }

/-! ### Mnemonics without a name -/

/-- A mnemonic without a name neither joins a clause nor gets one. -/
theorem Clause.insert_of_unnamed {opcode : String} (hn : Opcode.name? opcode = none)
    (clauses : List Clause) (index : Nat) :
    insert clauses (.opcodeAt index opcode) = .error (.unnamedOpcode opcode) := by
  have ho : opcodeName opcode = .error (.unnamedOpcode opcode) := by rw [opcodeName, hn]
  induction clauses with
  | nil =>
    rw [insert, ofFeature, ho]
    rfl
  | cons clause clauses ih =>
    cases clause with
    | opcodes names =>
      rw [insert, join?, ho]
      rfl
    | _ =>
      rw [insert, ih]
      rfl

/-- The first mnemonic without a name is the fault that rendering reports. -/
theorem render_of_unnamed {before : List Feature} (hr : Renderable before) {opcode : String}
    (hn : Opcode.name? opcode = none) (index : Nat) (after : List Feature) :
    render (before ++ .opcodeAt index opcode :: after) =
      .error (.fault (.unnamedOpcode opcode)) := by
  obtain ⟨clauses, hc⟩ := Clause.exists_ofFeatures hr.toConsistent
  have ho : Clause.ofFeatures (before ++ .opcodeAt index opcode :: after) =
      .error (.unnamedOpcode opcode) := by
    rw [Clause.ofFeatures] at hc ⊢
    rw [List.foldlM_append, hc]
    change (List.foldlM Clause.insert clauses (.opcodeAt index opcode :: after)) = _
    rw [List.foldlM_cons, Clause.insert_of_unnamed hn]
    rfl
  exact render_of_ofFeatures_eq_error ho

namespace Method

variable {window : Nat} {method : Method}

/-- A method carries an opcode without a name if an instruction within the window has one. -/
theorem hasUnnamedOpcode_features_iff :
    HasUnnamedOpcode (method.features window) ↔
      ∃ instruction ∈ method.instructions.take window, Opcode.name? instruction.opcode = none := by
  constructor
  · rintro ⟨index, opcode, hm, hn⟩
    obtain ⟨hw, instruction, hi, rfl⟩ := opcodeAt_mem_features.mp hm
    refine ⟨instruction, List.mem_iff_getElem?.mpr ⟨index, ?_⟩, hn⟩
    rw [List.getElem?_take_of_lt hw, hi]
  · rintro ⟨instruction, hm, hn⟩
    obtain ⟨index, hi⟩ := List.mem_iff_getElem?.mp hm
    rw [List.getElem?_take] at hi
    split at hi
    · next hw =>
      exact ⟨index, _, opcodeAt_mem_features.mpr ⟨hw, instruction, hi, rfl⟩, hn⟩
    · cases hi

/-- Which features of a method can be rendered, and why others cannot: what is taken from them is
any number of them in their order. -/
structure RendersNamed (window : Nat) (method : Method) (features : List Feature) : Prop where
  all_iff : (∀ taken, taken.Sublist features → ∃ text, render taken = .ok text) ↔
    ∀ instruction ∈ method.instructions.take window, (Opcode.name? instruction.opcode).isSome
  renders_iff : ∀ taken, taken.Sublist features →
    ((∃ text, render taken = .ok text) ↔ ¬HasUnnamedOpcode taken)
  fails : ∀ before index opcode after,
    (before ++ .opcodeAt index opcode :: after).Sublist features → ¬HasUnnamedOpcode before →
      Opcode.name? opcode = none →
        render (before ++ .opcodeAt index opcode :: after) =
          .error (.fault (.unnamedOpcode opcode))

/-- Whatever the method and the window: if extraction gives features, any of them can be rendered
unless an opcode among them has no name, and then the first such opcode is the fault. So all of
them can be rendered, and any of them, exactly if all opcodes within the window have names. -/
theorem rendersNamed_of_extract {features : List Feature}
    (h : method.extract window = .ok features) : method.RendersNamed window features := by
  obtain ⟨_, rfl⟩ := extract_eq_ok_iff.mp h
  have hrenders : ∀ taken, taken.Sublist (method.features window) →
      ((∃ text, render taken = .ok text) ↔ ¬HasUnnamedOpcode taken) :=
    fun _ hs ↦ exists_render_iff.trans (renderable_iff_of_subset hs.subset)
  refine ⟨?_, hrenders, ?_⟩
  · constructor
    · intro hall instruction hm
      have hn := (hrenders _ (List.Sublist.refl _)).mp (hall _ (List.Sublist.refl _))
      rw [← Option.ne_none_iff_isSome]
      exact fun ho ↦ hn (hasUnnamedOpcode_features_iff.mpr ⟨instruction, hm, ho⟩)
    · rintro hall taken hs
      refine (hrenders taken hs).mpr ?_
      rintro ⟨index, opcode, hm, hn⟩
      obtain ⟨instruction, hi, ho⟩ :=
        hasUnnamedOpcode_features_iff.mp ⟨index, opcode, hs.subset hm, hn⟩
      have hname := hall instruction hi
      rw [ho] at hname
      cases hname
  · intro before index opcode after hs hb hn
    have hbefore := (List.sublist_append_left before (.opcodeAt index opcode :: after)).trans hs
    exact render_of_unnamed ((renderable_iff_of_subset hbefore.subset).mpr hb) hn index after

/-- A mnemonic without a name does no harm beyond the window. -/
theorem rendersNamed_of_extract_window :
    let method : Method :=
      { id := ⟨"LA;->a()V"⟩, returnType := "V",
        instructions := [{ opcode := "const/4" }, { opcode := "+invoke-virtual-quick" }] }
    let features : List Feature :=
      [.accessFlags 0, .returnType "V", .parameters [], .opcodeAt 0 "const/4"]
    method.extract 1 = .ok features ∧ method.RendersNamed 1 features ∧
      ∀ taken, taken.Sublist features → ∃ text, render taken = .ok text := by
  intro method features
  have hx : method.extract 1 = .ok features := by decide
  have hr := rendersNamed_of_extract hx
  exact ⟨hx, hr, hr.all_iff.mpr (by decide)⟩

/-- Within the window it keeps the features that were extracted from being rendered. -/
theorem extract_unrendered :
    let method : Method :=
      { id := ⟨"LA;->a()V"⟩, returnType := "V",
        instructions := [{ opcode := "const/4" }, { opcode := "+invoke-virtual-quick" }] }
    let features : List Feature :=
      [.accessFlags 0, .returnType "V", .parameters [], .opcodeAt 0 "const/4",
        .opcodeAt 1 "+invoke-virtual-quick"]
    method.extract 2 = .ok features ∧
      render features = .error (.fault (.unnamedOpcode "+invoke-virtual-quick")) ∧
      ¬∀ taken, taken.Sublist features → ∃ text, render taken = .ok text := by
  intro method features
  have hr : render features = .error (.fault (.unnamedOpcode "+invoke-virtual-quick")) := by decide
  refine ⟨by decide, hr, fun hall ↦ ?_⟩
  obtain ⟨text, ht⟩ := hall features (List.Sublist.refl _)
  rw [hr] at ht
  cases ht

end Method

end MethodPrint
