import MethodPrint.Proofs.Index.Query
import MethodPrint.Proofs.Predicate.Meaning

/-!
# Fingerprints and containment

Features of an indexed method, once rendered, lead to the methods that carry all of them and to
those that imitate such a method. Imitators share all features but opcodes, whose names they share
and whose mnemonics they do not.
-/

namespace MethodPrint

/-- A method that passes for one with some features, though it has not all of them: the mnemonic at
some position is another one of the same name. -/
structure IndexedMethod.Imitates (features : List Feature) (other : IndexedMethod) : Prop where
  carries : ∀ f ∈ features, f.kind ≠ .opcodeAt → f ∈ other.features
  named : ∀ index opcode, .opcodeAt index opcode ∈ features →
    ∃ mnemonic, .opcodeAt index mnemonic ∈ other.features ∧
      Opcode.name? mnemonic = Opcode.name? opcode
  differs : ∃ index opcode mnemonic, .opcodeAt index opcode ∈ features ∧
    .opcodeAt index mnemonic ∈ other.features ∧ mnemonic ≠ opcode

/-! ### Meeting and carrying -/

/-- Imitators do not carry all of the features. -/
theorem IndexedMethod.Imitates.not_carries {window : Nat} {features : List Feature}
    {other : IndexedMethod} (h : other.Imitates features)
    (ho : other.features = other.method.features window) :
    ¬∀ f ∈ features, f ∈ other.features := by
  intro hall
  obtain ⟨index, opcode, mnemonic, hf, hm, hne⟩ := h.differs
  have hf := hall _ hf
  rw [ho] at hf hm
  exact hne (Method.opcodeAt_mem_features_inj hm hf)

/-- The features of a method are met by those that carry them all and by imitators. -/
theorem forall_metBy_iff {window : Nat} {method : Method} {features : List Feature}
    (hf : features ⊆ method.features window)
    (hn : ∀ {index opcode}, .opcodeAt index opcode ∈ features → (Opcode.name? opcode).isSome)
    {other : IndexedMethod} (ho : other.features = other.method.features window) :
    (∀ f ∈ features, f.MetBy other.method) ↔
      (∀ f ∈ features, f ∈ other.features) ∨ other.Imitates features := by
  have hopcode : ∀ {index opcode}, .opcodeAt index opcode ∈ features →
      ((Feature.opcodeAt index opcode).MetBy other.method ↔
        ∃ mnemonic, .opcodeAt index mnemonic ∈ other.features ∧
          Opcode.name? mnemonic = Opcode.name? opcode) := by
    intro index opcode hm
    rw [ho]
    exact Method.metBy_opcodeAt_iff (Method.opcodeAt_mem_features.mp (hf hm)).1 (hn hm)
  have hother : ∀ {f : Feature}, f.kind ≠ .opcodeAt → (f.MetBy other.method ↔
      f ∈ other.features) := by
    intro f hk
    rw [ho]
    exact (Method.mem_features_iff_metBy hk).symm
  constructor
  · intro hm
    by_cases hall : ∀ f ∈ features, f ∈ other.features
    · exact .inl hall
    · refine .inr ⟨fun f hf hk ↦ (hother hk).mp (hm f hf),
        fun index opcode hf ↦ (hopcode hf).mp (hm _ hf), ?_⟩
      simp only [not_forall] at hall
      obtain ⟨f, hf, hnot⟩ := hall
      by_cases hk : f.kind = .opcodeAt
      · cases f <;> cases hk
        next index opcode =>
        obtain ⟨mnemonic, hmem, _⟩ := (hopcode hf).mp (hm _ hf)
        refine ⟨index, opcode, mnemonic, hf, hmem, ?_⟩
        rintro rfl
        exact hnot hmem
      · exact absurd ((hother hk).mp (hm f hf)) hnot
  · rintro (hall | himitates) f hm
    · apply Method.metBy_of_mem_features (fun index opcode he ↦ hn (he ▸ hm))
      rw [← ho]
      exact hall f hm
    · by_cases hk : f.kind = .opcodeAt
      · cases f <;> cases hk
        next index opcode => exact (hopcode hm).mpr (himitates.named index opcode hm)
      · exact (hother hk).mpr (himitates.carries f hm hk)

namespace Index

variable {window : Nat} {members : List Member} {index : Index} {position : Nat}
  {entry : IndexedMethod}

/-- An accepted method is met in full by the features that the predicate states. -/
theorem Represents.mem_resolveAll_iff (h : index.Represents window members)
    (he : index.method? position = some entry) {features : List Feature}
    (hf : features ⊆ entry.features) {predicate : Predicate} (hs : predicate.States features)
    {other : IndexedMethod} :
    other ∈ index.resolveAll predicate ↔ other ∈ index.methods.toList ∧
      ((∀ f ∈ features, f ∈ other.features) ∨ other.Imitates features) := by
  rw [resolveAll, List.mem_filter, and_congr_right_iff]
  intro hm
  obtain ⟨place, ho⟩ := mem_methods_iff.mp hm
  rw [hs.accepts_iff]
  rw [h.features_eq he] at hf
  apply forall_metBy_iff hf _ (h.features_eq ho)
  intro index opcode hm
  obtain ⟨name, hn, _⟩ := hs.named index opcode hm
  rw [hn, Option.isSome_some]

/-- No method is accepted twice. -/
theorem Represents.nodup_resolveAll (h : index.Represents window members) (predicate : Predicate) :
    (index.resolveAll predicate).Nodup := by
  apply List.Nodup.of_map (·.id)
  exact h.nodup_ids.sublist (List.filter_sublist.map _)

/-- A predicate that accepts one method leads to it. -/
theorem Represents.resolveUnique_of_forall_eq (h : index.Represents window members)
    {predicate : Predicate} (hm : entry ∈ index.resolveAll predicate)
    (honly : ∀ other ∈ index.resolveAll predicate, other = entry) :
    index.resolveUnique predicate = .ok entry := by
  have hd := h.nodup_resolveAll predicate
  rw [resolveUnique]
  cases hr : index.resolveAll predicate with
  | nil =>
    rw [hr] at hm
    cases hm
  | cons first rest =>
    rw [hr] at honly hd
    obtain ⟨rfl, honly⟩ := List.forall_mem_cons.mp honly
    cases rest with
    | nil => rfl
    | cons second rest =>
      rw [honly second List.mem_cons_self, List.nodup_cons] at hd
      exact absurd List.mem_cons_self hd.1

/-- A predicate that accepts two methods is ambiguous. -/
theorem resolveUnique_of_ne {predicate : Predicate} {a b : IndexedMethod}
    (ha : a ∈ index.resolveAll predicate) (hb : b ∈ index.resolveAll predicate) (hne : a ≠ b) :
    ∃ found, index.resolveUnique predicate = .error (.ambiguousMatch found) := by
  rw [resolveUnique]
  cases hr : index.resolveAll predicate with
  | nil =>
    rw [hr] at ha
    cases ha
  | cons first rest =>
    cases rest with
    | nil =>
      rw [hr, List.mem_singleton] at ha hb
      exact absurd (ha.trans hb.symm) hne
    | cons second rest => exact ⟨_, rfl⟩

/-- Features that belong to one method only lead to this method, and to others exactly if some
method imitates it. -/
theorem Represents.resolveUnique_cases (h : index.Represents window members)
    (he : index.method? position = some entry) {features : List Feature}
    (hf : features ⊆ entry.features) (ha : index.ambiguity features = #[position])
    {predicate : Predicate} (hs : predicate.States features) :
    (∀ other ∈ index.methods.toList, ¬other.Imitates features) ∧
        index.resolveUnique predicate = .ok entry ∨
      (∃ other ∈ index.methods.toList, other.Imitates features) ∧
        ∃ found, index.resolveUnique predicate = .error (.ambiguousMatch found) := by
  have hm : ∀ {other}, other ∈ index.resolveAll predicate ↔ other ∈ index.methods.toList ∧
      ((∀ f ∈ features, f ∈ other.features) ∨ other.Imitates features) :=
    h.mem_resolveAll_iff he hf hs
  have hself : entry ∈ index.resolveAll predicate :=
    hm.mpr ⟨mem_methods_iff.mpr ⟨position, he⟩, .inl fun f hm ↦ hf hm⟩
  by_cases hi : ∃ other ∈ index.methods.toList, other.Imitates features
  · refine .inr ⟨hi, ?_⟩
    obtain ⟨other, ho, hi⟩ := hi
    apply resolveUnique_of_ne (hm.mpr ⟨ho, .inr hi⟩) hself
    rintro rfl
    exact hi.not_carries (h.features_eq he) fun f hm ↦ hf hm
  · refine .inl ⟨fun other ho hi' ↦ hi ⟨other, ho, hi'⟩, ?_⟩
    apply h.resolveUnique_of_forall_eq hself
    intro other hother
    obtain ⟨ho, hcarries | hi'⟩ := hm.mp hother
    · obtain ⟨place, hp⟩ := mem_methods_iff.mp ho
      obtain rfl := (h.ambiguity_eq_singleton_iff he hf).mp ha place other hp hcarries
      exact Option.some.inj (hp.symm.trans he)
    · exact absurd ⟨other, ho, hi'⟩ hi

/-- Rendered features of an indexed method lead to the methods that carry all of them and to those
that imitate one. They lead to their ambiguity, in corpus order, exactly if nothing imitates; only
no features at all, in a corpus with as many methods as positions, have no ambiguity to lead to. -/
theorem resolveAll_of_render {corpusId : String} (hb : build corpusId window members = .ok index)
    (he : index.method? position = some entry) {features : List Feature}
    (hf : features ⊆ entry.features) {text : String} (hr : render features = .ok text) :
    ∃ predicate, Evaluator.language text = .accepted predicate ∧
      (∀ other, other ∈ index.resolveAll predicate ↔ other ∈ index.methods.toList ∧
        ((∀ f ∈ features, f ∈ other.features) ∨ other.Imitates features)) ∧
      ((features = [] → index.size < UInt32.size) →
        ((index.resolveAll predicate).map (index.position? ·.id) =
            (index.ambiguity features).toList.map some ↔
          ∀ other ∈ index.methods.toList, ¬other.Imitates features)) := by
  have h := represents_of_build hb
  obtain ⟨predicate, ha, hs⟩ := exists_accepted_of_render hr
  have hm : ∀ other, other ∈ index.resolveAll predicate ↔ other ∈ index.methods.toList ∧
      ((∀ f ∈ features, f ∈ other.features) ∨ other.Imitates features) :=
    fun _ ↦ h.mem_resolveAll_iff he hf hs
  refine ⟨predicate, ha, hm, fun hsize ↦ ?_⟩
  constructor
  · intro heq other ho himitates
    obtain ⟨place, hp⟩ := mem_methods_iff.mp ho
    have hmem := List.mem_map_of_mem (f := (index.position? ·.id))
      ((hm other).mpr ⟨ho, .inr himitates⟩)
    rw [heq, h.position?_id hp, List.mem_map_of_injective (Option.some_injective Nat),
      Array.mem_toList_iff, h.mem_ambiguity] at hmem
    obtain ⟨_, same, hsame, hall⟩ := hmem
    obtain rfl : same = other := Option.some.inj (hsame.symm.trans hp)
    exact himitates.not_carries (h.features_eq hp) hall
  · intro hn
    have hfilter : index.resolveAll predicate =
        index.methods.toList.filter fun other ↦ decide (∀ f ∈ features, f ∈ other.features) := by
      apply List.filter_congr
      intro other ho
      rw [Bool.eq_iff_iff, decide_eq_true_eq]
      have hacc := hm other
      rw [resolveAll, List.mem_filter, and_congr_right_iff] at hacc
      rw [hacc ho, or_iff_left (hn other ho)]
    rw [hfilter, h.map_position?_filter, h.methods_eq, h.ambiguity_eq hsize]

/-- A case without imitators: two methods whose first opcodes have different names. -/
theorem resolveAll_of_render_opcode :
    let const : Method :=
      { id := ⟨"LA;->a()V"⟩, returnType := "V", instructions := [{ opcode := "const/4" }] }
    let nop : Method :=
      { id := ⟨"LA;->b()V"⟩, returnType := "V", instructions := [{ opcode := "nop" }] }
    let features : List Feature := [.opcodeAt 0 "const/4", .returnType "V"]
    ∃ index entry text predicate,
      build "opcodes" 1 [.method const, .method nop] = .ok index ∧
      index.method? 0 = some entry ∧ features ⊆ entry.features ∧ render features = .ok text ∧
      Evaluator.language text = .accepted predicate ∧
      (∀ other, other ∈ index.resolveAll predicate ↔ other ∈ index.methods.toList ∧
        ((∀ f ∈ features, f ∈ other.features) ∨ other.Imitates features)) ∧
      ((features = [] → index.size < UInt32.size) →
        ((index.resolveAll predicate).map (index.position? ·.id) =
            (index.ambiguity features).toList.map some ↔
          ∀ other ∈ index.methods.toList, ¬other.Imitates features)) := by
  intro const nop features
  obtain ⟨index, hb⟩ : ∃ index, build "opcodes" 1 [.method const, .method nop] = .ok index :=
    exists_build "opcodes" 1 (by decide) (by decide) (by decide) (by decide)
  have he : index.method? 0 = some (.ofMethod 1 const) := (represents_of_build hb).method?_eq 0
  have hf : features ⊆ (IndexedMethod.ofMethod 1 const).features := by decide
  have hr : render features =
      .ok "fingerprint \x7b\n    opcodes(Opcode.CONST_4)\n    returns(\"V\")\n\x7d" := by decide
  obtain ⟨predicate, ha, hm, heq⟩ := resolveAll_of_render hb he hf hr
  exact ⟨index, _, _, predicate, hb, he, hf, hr, ha, hm, heq⟩

/-- The mnemonics `const/4` and `const-4` have the same name, so that the fingerprint of one leads
to the other as well, which does not carry the feature. -/
theorem resolveAll_ne_ambiguity :
    let slash : Method :=
      { id := ⟨"LA;->a()V"⟩, returnType := "V", instructions := [{ opcode := "const/4" }] }
    let dash : Method :=
      { id := ⟨"LA;->b()V"⟩, returnType := "V", instructions := [{ opcode := "const-4" }] }
    let features : List Feature := [.opcodeAt 0 "const/4"]
    ∃ index text predicate, build "alike" 1 [.method slash, .method dash] = .ok index ∧
      features.Sublist (slash.features 1) ∧ render features = .ok text ∧
      Evaluator.language text = .accepted predicate ∧
      (index.resolveAll predicate).map (index.position? ·.id) = [some 0, some 1] ∧
      index.ambiguity features = #[0] := by
  intro slash dash features
  obtain ⟨index, hb⟩ : ∃ index, build "alike" 1 [.method slash, .method dash] = .ok index :=
    exists_build "alike" 1 (by decide) (by decide) (by decide) (by decide)
  have h := represents_of_build hb
  let text := "fingerprint \x7b\n    opcodes(Opcode.CONST_4)\n\x7d"
  let predicate : Predicate := { opcodes := [some "CONST_4"] }
  have ha : Evaluator.language text = .accepted predicate := by decide +kernel
  refine ⟨index, text, predicate, hb, by decide, by decide, ha, ?_, ?_⟩
  · rw [resolveAll, h.map_position?_filter, h.methods_eq]
    decide
  · rw [h.ambiguity_eq fun hnil ↦ absurd hnil (List.cons_ne_nil _ _)]
    decide

end Index

end MethodPrint
