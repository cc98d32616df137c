import MethodPrint.Proofs.Feature.Extraction
import MethodPrint.Proofs.Predicate.Writing

/-!
# Grouping features into clauses

Features join one by one in the clause of their kind. At any point there is one clause for each
kind met so far, in the order in which the kinds were met, and it says exactly what the features of
its kind say. Grouping goes on as long as the features are consistent.
-/

namespace MethodPrint

namespace Feature

/-- The string that a feature states, if it states one. -/
def string? : Feature → Option String
  | .stringLiteral value => some value
  | _ => none

/-- The signature of a called method that a feature states, if it states one. -/
def signature? : Feature → Option String
  | .invokedMethod signature => some signature
  | _ => none

/-- The number that a feature states, if it states one. -/
def literal? : Feature → Option Int64
  | .literal value => some value
  | _ => none

/-- Only string features state strings. -/
theorem string?_eq_none {feature : Feature} (h : feature.kind ≠ .stringLiteral) :
    feature.string? = none := by
  cases feature <;> first | rfl | exact absurd rfl h

/-- Only call features state signatures. -/
theorem signature?_eq_none {feature : Feature} (h : feature.kind ≠ .invokedMethod) :
    feature.signature? = none := by
  cases feature <;> first | rfl | exact absurd rfl h

/-- Only number features state numbers. -/
theorem literal?_eq_none {feature : Feature} (h : feature.kind ≠ .literal) :
    feature.literal? = none := by
  cases feature <;> first | rfl | exact absurd rfl h

end Feature

/-- Features that can be demanded together: no two of them contradict each other, and every opcode
has a name. -/
structure Consistent (features : List Feature) : Prop where
  accessFlags : ∀ {a b}, .accessFlags a ∈ features → .accessFlags b ∈ features → a = b
  returnType : ∀ {a b}, .returnType a ∈ features → .returnType b ∈ features → a = b
  parameters : ∀ {a b}, .parameters a ∈ features → .parameters b ∈ features → a = b
  named : ∀ {index opcode}, .opcodeAt index opcode ∈ features → (Opcode.name? opcode).isSome
  opcode : ∀ {index a b}, .opcodeAt index a ∈ features → .opcodeAt index b ∈ features →
    Opcode.name? a = Opcode.name? b

/-- Some of the features, in any order and any number, are consistent if all are. -/
theorem Consistent.mono {some all : List Feature} (h : Consistent all)
    (hs : ∀ f ∈ some, f ∈ all) : Consistent some where
  accessFlags ha hb := h.accessFlags (hs _ ha) (hs _ hb)
  returnType ha hb := h.returnType (hs _ ha) (hs _ hb)
  parameters ha hb := h.parameters (hs _ ha) (hs _ hb)
  named ho := h.named (hs _ ho)
  opcode ha hb := h.opcode (hs _ ha) (hs _ hb)

namespace Clause

/-- A clause says what the features of its kind say. -/
def Collects (features : List Feature) : Clause → Prop
  | .accessFlags first => ∀ flags, .accessFlags flags ∈ features ↔ flags = first
  | .returns first => ∀ type, .returnType type ∈ features ↔ type = first
  | .parameters first => ∀ types, .parameters types ∈ features ↔ types = first
  | .strings values => values = (features.filterMap Feature.string?).eraseDups
  | .invokes signatures => signatures = (features.filterMap Feature.signature?).eraseDups
  | .literals values => values = (features.filterMap Feature.literal?).eraseDups
  | .opcodes names =>
    (∀ index opcode, .opcodeAt index opcode ∈ features →
      ∃ name, Opcode.name? opcode = some name ∧ names.lookup index = some name) ∧
    ∀ entry ∈ names, ∃ opcode, .opcodeAt entry.1 opcode ∈ features ∧
      Opcode.name? opcode = some entry.2

/-- One clause for each kind of some features, in the order of the first feature of each kind, which
says what the features of its kind say. -/
structure Group (features : List Feature) (clauses : List Clause) : Prop where
  order : clauses.map kind = (features.map Feature.kind).eraseDups
  collects : ∀ clause ∈ clauses, clause.Collects features

/-- No two clauses are of one kind. -/
theorem Group.nodup {features : List Feature} {clauses : List Clause} (h : Group features clauses) :
    (clauses.map kind).Nodup := by
  rw [h.order]
  exact nodup_eraseDups _

/-- The kind of a clause is that of no other one. -/
theorem Group.kind_not_mem {features : List Feature} {front back : List Clause} {clause : Clause}
    (h : Group features (front ++ clause :: back)) : clause.kind ∉ (front ++ back).map kind := by
  have hd := h.nodup
  rw [List.map_append, List.map_cons, List.nodup_middle, List.nodup_cons, ← List.map_append] at hd
  exact hd.1

/-- The clauses have the kinds of the features. -/
theorem Group.kinds {features : List Feature} {clauses : List Clause} (h : Group features clauses)
    (kind : FeatureKind) : kind ∈ clauses.map Clause.kind ↔ ∃ f ∈ features, f.kind = kind := by
  rw [h.order, List.mem_eraseDups, List.mem_map]

/-- The clauses before that of a kind are those of the features before the first of this kind. -/
theorem Group.order_before {before after : List Feature} {feature : Feature}
    {front back : List Clause} {clause : Clause}
    (h : Group (before ++ feature :: after) (front ++ clause :: back))
    (hk : clause.kind = feature.kind) (hn : ∀ f ∈ before, f.kind ≠ feature.kind) :
    front.map kind = (before.map Feature.kind).eraseDups := by
  have hb : ((before.map Feature.kind).contains feature.kind) = false := by
    simpa using hn
  have ho := h.order
  rw [List.map_append, List.map_cons, hk, List.map_append, List.map_cons, List.eraseDups_append,
    List.cons_removeAll, if_pos hb, List.eraseDups_cons] at ho
  have hd := h.kind_not_mem
  rw [hk, List.map_append, List.mem_append, not_or] at hd
  exact ((List.append_cons_inj_of_notMem hd.1 hd.2).mp ho).1

/-! ### Joining -/

/-- An opcode is named by its mnemonic. -/
theorem opcodeName_eq_ok_iff {mnemonic name : String} :
    opcodeName mnemonic = .ok name ↔ Opcode.name? mnemonic = some name := by
  unfold opcodeName
  split
  · next other ho => rw [ho, Except.ok.injEq, Option.some.injEq]
  · next hn => rw [hn]; exact ⟨nofun, nofun⟩

/-- A clause joins the features of its own kind and no others. -/
theorem join?_eq_none_iff {clause : Clause} {feature : Feature} :
    clause.join? feature = none ↔ clause.kind ≠ feature.kind := by
  cases clause <;> cases feature <;> simp [join?, kind, Feature.kind]

private theorem mem_concat_of_kind_ne {features : List Feature} {feature : Feature}
    (other : Feature) (h : other.kind ≠ feature.kind) :
    other ∈ features ++ [feature] ↔ other ∈ features := by
  rw [List.mem_append, List.mem_singleton, or_iff_left]
  rintro rfl
  exact h rfl

private theorem filterMap_concat_of_none {α : Type} {value? : Feature → Option α}
    {feature : Feature} (h : value? feature = none) (features : List Feature) :
    (features ++ [feature]).filterMap value? = features.filterMap value? := by
  rw [List.filterMap_append, List.filterMap_cons_none h, List.filterMap_nil, List.append_nil]

/-- A feature of another kind changes nothing. -/
theorem Collects.skip {features : List Feature} {clause : Clause} (h : clause.Collects features)
    {feature : Feature} (hk : clause.kind ≠ feature.kind) :
    clause.Collects (features ++ [feature]) := by
  cases clause with
  | accessFlags first =>
    exact fun flags ↦ (mem_concat_of_kind_ne (.accessFlags flags) hk).trans (h flags)
  | returns first =>
    exact fun type ↦ (mem_concat_of_kind_ne (.returnType type) hk).trans (h type)
  | parameters first =>
    exact fun types ↦ (mem_concat_of_kind_ne (.parameters types) hk).trans (h types)
  | strings values =>
    rw [Collects, filterMap_concat_of_none (Feature.string?_eq_none hk.symm)]
    exact h
  | invokes signatures =>
    rw [Collects, filterMap_concat_of_none (Feature.signature?_eq_none hk.symm)]
    exact h
  | literals values =>
    rw [Collects, filterMap_concat_of_none (Feature.literal?_eq_none hk.symm)]
    exact h
  | opcodes names =>
    have hm (index : Nat) (opcode : String) : .opcodeAt index opcode ∈ features ++ [feature] ↔
        .opcodeAt index opcode ∈ features := mem_concat_of_kind_ne (.opcodeAt index opcode) hk
    refine ⟨fun index opcode ho ↦ h.1 index opcode ((hm index opcode).mp ho), ?_⟩
    intro entry he
    obtain ⟨opcode, ho, hn⟩ := h.2 entry he
    exact ⟨opcode, (hm entry.1 opcode).mpr ho, hn⟩

private theorem addNew_filterMap {α : Type} [DecidableEq α] {value? : Feature → Option α}
    {feature : Feature} {value : α} (h : value? feature = some value) (features : List Feature) :
    addNew (features.filterMap value?).eraseDups value =
      ((features ++ [feature]).filterMap value?).eraseDups := by
  rw [List.filterMap_append, List.filterMap_cons_some h, List.filterMap_nil, addNew,
    eraseDups_concat]
  simp only [List.mem_eraseDups]

private theorem forall_mem_concat_iff {α : Type} {make : α → Feature}
    (hi : ∀ {a b}, make a = make b → a = b) {features : List Feature} {first : α}
    (h : ∀ value, make value ∈ features → value = first) :
    ∀ value, make value ∈ features ++ [make first] ↔ value = first := by
  intro value
  rw [List.mem_append, List.mem_singleton]
  constructor
  · exact fun hm ↦ hm.elim (h value) hi
  · rintro rfl
    exact .inr rfl

private theorem nameAt_eq_ok_iff {names extended : List (Nat × String)} {index : Nat}
    {name : String} :
    nameAt names index name = .ok extended ↔
      names.lookup index = none ∧ names ++ [(index, name)] = extended ∨
        names.lookup index = some name ∧ names = extended := by
  unfold nameAt
  split
  · next hn => simp [hn]
  · next first hf =>
    split
    · next he => simp [hf, he]
    · next hne => simp [hf, hne]

private theorem Collects.joinOpcode {features : List Feature} {names extended : List (Nat × String)}
    (h : (opcodes names).Collects features) {index : Nat} {opcode name : String}
    (ho : Opcode.name? opcode = some name) (hn : nameAt names index name = .ok extended) :
    (opcodes extended).Collects (features ++ [.opcodeAt index opcode]) := by
  obtain ⟨hl, he⟩ := h
  rcases nameAt_eq_ok_iff.mp hn with ⟨hs, rfl⟩ | ⟨hs, rfl⟩
  · constructor
    · intro i other hm
      rw [List.lookup_append]
      rcases List.mem_append.mp hm with hm | hm
      · obtain ⟨n, hn, hi⟩ := hl i other hm
        exact ⟨n, hn, by rw [hi]; rfl⟩
      · cases List.mem_singleton.mp hm
        exact ⟨name, ho, by rw [hs]; simp⟩
    · intro entry hm
      rcases List.mem_append.mp hm with hm | hm
      · obtain ⟨other, ho, hn⟩ := he entry hm
        exact ⟨other, List.mem_append_left _ ho, hn⟩
      · cases List.mem_singleton.mp hm
        exact ⟨opcode, List.mem_append_right _ List.mem_cons_self, ho⟩
  · constructor
    · intro i other hm
      rcases List.mem_append.mp hm with hm | hm
      · exact hl i other hm
      · cases List.mem_singleton.mp hm
        exact ⟨name, ho, hs⟩
    · intro entry hm
      obtain ⟨other, ho, hn⟩ := he entry hm
      exact ⟨other, List.mem_append_left _ ho, hn⟩

private theorem join?_opcodes_eq_ok_iff {names : List (Nat × String)} {index : Nat}
    {opcode : String} {joined : Clause} :
    (opcodes names).join? (.opcodeAt index opcode) = some (.ok joined) ↔
      ∃ name extended, Opcode.name? opcode = some name ∧ nameAt names index name = .ok extended ∧
        opcodes extended = joined := by
  simp only [join?, Option.some.injEq]
  cases hn : opcodeName opcode with
  | error fault =>
    constructor
    · exact nofun
    · rintro ⟨name, _, ho, _⟩
      rw [← opcodeName_eq_ok_iff, hn] at ho
      cases ho
  | ok name =>
    have ho := opcodeName_eq_ok_iff.mp hn
    cases ha : nameAt names index name with
    | error fault => simp [bind, Except.bind, ha, ho]
    | ok extended => simp [bind, Except.bind, ha, ho, pure, Except.pure]

private theorem eq_of_ite_eq_ok {α ε : Type} {c : Prop} [Decidable c] {value result : α}
    {error : ε} (h : (if c then .ok value else .error error) = (.ok result : Except ε α)) :
    c ∧ value = result := by
  split at h
  · next hc => exact ⟨hc, Except.ok.inj h⟩
  · cases h

/-- A clause that joins a feature says what the features with this one say. -/
theorem Collects.join {features : List Feature} {clause joined : Clause}
    (h : clause.Collects features) {feature : Feature}
    (hj : clause.join? feature = some (.ok joined)) :
    joined.kind = clause.kind ∧ joined.Collects (features ++ [feature]) := by
  fun_cases join? clause feature with
  | case1 first flags =>
    obtain ⟨rfl, rfl⟩ := eq_of_ite_eq_ok (Option.some.inj hj)
    exact ⟨rfl, forall_mem_concat_iff Feature.accessFlags.inj fun value ↦ (h value).mp⟩
  | case2 first type =>
    obtain ⟨rfl, rfl⟩ := eq_of_ite_eq_ok (Option.some.inj hj)
    exact ⟨rfl, forall_mem_concat_iff Feature.returnType.inj fun value ↦ (h value).mp⟩
  | case3 first types =>
    obtain ⟨rfl, rfl⟩ := eq_of_ite_eq_ok (Option.some.inj hj)
    exact ⟨rfl, forall_mem_concat_iff Feature.parameters.inj fun value ↦ (h value).mp⟩
  | case4 values value =>
    cases hj
    have hv : values = (features.filterMap Feature.string?).eraseDups := h
    have hs : (Feature.stringLiteral value).string? = some value := rfl
    exact ⟨rfl, hv ▸ addNew_filterMap hs features⟩
  | case5 signatures signature =>
    cases hj
    have hv : signatures = (features.filterMap Feature.signature?).eraseDups := h
    have hs : (Feature.invokedMethod signature).signature? = some signature := rfl
    exact ⟨rfl, hv ▸ addNew_filterMap hs features⟩
  | case6 values value =>
    cases hj
    have hv : values = (features.filterMap Feature.literal?).eraseDups := h
    have hs : (Feature.literal value).literal? = some value := rfl
    exact ⟨rfl, hv ▸ addNew_filterMap hs features⟩
  | case7 names index opcode =>
    obtain ⟨name, extended, ho, hn, rfl⟩ := join?_opcodes_eq_ok_iff.mp hj
    exact ⟨rfl, h.joinOpcode ho hn⟩
  | case8 =>
    rw [join?] at hj
    · cases hj
    all_goals assumption

private theorem singleton_eq_eraseDups {α : Type} [DecidableEq α] {value? : Feature → Option α}
    {features : List Feature} (hn : ∀ f ∈ features, value? f = none) {feature : Feature} {value : α}
    (hs : value? feature = some value) :
    [value] = ((features ++ [feature]).filterMap value?).eraseDups := by
  rw [← addNew_filterMap hs, List.filterMap_eq_nil_iff.mpr hn]
  rfl

/-- The clause of the first feature of a kind says what this feature says. -/
theorem collects_ofFeature {features : List Feature} {clause : Clause} {feature : Feature}
    (h : ofFeature feature = .ok clause) (hk : ∀ f ∈ features, f.kind ≠ feature.kind) :
    clause.kind = feature.kind ∧ clause.Collects (features ++ [feature]) := by
  cases feature with
  | accessFlags flags =>
    cases h
    exact ⟨rfl, forall_mem_concat_iff Feature.accessFlags.inj fun v hm ↦
      absurd rfl (hk (.accessFlags v) hm)⟩
  | returnType type =>
    cases h
    exact ⟨rfl, forall_mem_concat_iff Feature.returnType.inj fun v hm ↦
      absurd rfl (hk (.returnType v) hm)⟩
  | parameters types =>
    cases h
    exact ⟨rfl, forall_mem_concat_iff Feature.parameters.inj fun v hm ↦
      absurd rfl (hk (.parameters v) hm)⟩
  | stringLiteral value =>
    cases h
    exact ⟨rfl, singleton_eq_eraseDups (fun f hf ↦ Feature.string?_eq_none (hk f hf)) rfl⟩
  | invokedMethod signature =>
    cases h
    exact ⟨rfl, singleton_eq_eraseDups (fun f hf ↦ Feature.signature?_eq_none (hk f hf)) rfl⟩
  | literal value =>
    cases h
    exact ⟨rfl, singleton_eq_eraseDups (fun f hf ↦ Feature.literal?_eq_none (hk f hf)) rfl⟩
  | opcodeAt index opcode =>
    cases hn : opcodeName opcode with
    | error fault =>
      rw [ofFeature, hn] at h
      cases h
    | ok name =>
      rw [ofFeature, hn] at h
      cases h
      have hempty : (opcodes []).Collects features :=
        ⟨fun i other hm ↦ absurd rfl (hk (.opcodeAt i other) hm), nofun⟩
      exact ⟨rfl, hempty.joinOpcode (opcodeName_eq_ok_iff.mp hn) rfl⟩

/-! ### Inserting -/

/-- A feature joins the first clause of its kind, or gets a new clause at the end. -/
theorem insert_cases {clauses next : List Clause} {feature : Feature}
    (h : insert clauses feature = .ok next) :
    (∃ clause, (∀ c ∈ clauses, c.kind ≠ feature.kind) ∧ ofFeature feature = .ok clause ∧
      next = clauses ++ [clause]) ∨
    ∃ before clause joined after, clauses = before ++ clause :: after ∧
      clause.kind = feature.kind ∧ clause.join? feature = some (.ok joined) ∧
      next = before ++ joined :: after := by
  induction clauses generalizing next with
  | nil =>
    cases hf : ofFeature feature with
    | error fault =>
      rw [insert, hf] at h
      cases h
    | ok clause =>
      rw [insert, hf] at h
      cases h
      exact .inl ⟨clause, nofun, rfl, rfl⟩
  | cons clause clauses ih =>
    rw [insert] at h
    split at h
    · next result hj =>
      cases result with
      | error fault => cases h
      | ok joined =>
        cases h
        have hk : clause.kind = feature.kind := by
          by_contra hne
          rw [join?_eq_none_iff.mpr hne] at hj
          cases hj
        exact .inr ⟨[], clause, joined, clauses, rfl, hk, hj, rfl⟩
    · next hj =>
      have hk := join?_eq_none_iff.mp hj
      cases hi : insert clauses feature with
      | error fault =>
        rw [hi] at h
        cases h
      | ok inserted =>
        rw [hi] at h
        cases h
        rcases ih hi with ⟨new, hn, hf, rfl⟩ | ⟨before, old, joined, after, rfl, hk', hj', rfl⟩
        · exact .inl ⟨new, List.forall_mem_cons.mpr ⟨hk, hn⟩, hf, rfl⟩
        · exact .inr ⟨clause :: before, old, joined, after, rfl, hk', hj', rfl⟩

/-- The first feature of its kind gets a clause of its own. -/
theorem Group.concat {features : List Feature} {clauses : List Clause}
    (h : Group features clauses) {feature : Feature} {clause : Clause}
    (hn : ∀ c ∈ clauses, c.kind ≠ feature.kind) (hf : ofFeature feature = .ok clause) :
    Group (features ++ [feature]) (clauses ++ [clause]) := by
  have hnew : ∀ f ∈ features, f.kind ≠ feature.kind := by
    intro f hf he
    obtain ⟨c, hc, hkc⟩ := List.mem_map.mp ((h.kinds f.kind).mpr ⟨f, hf, rfl⟩)
    exact hn c hc (hkc.trans he)
  obtain ⟨hk, hc⟩ := collects_ofFeature hf hnew
  have hm : feature.kind ∉ features.map Feature.kind := by
    intro hm
    obtain ⟨f, hf, he⟩ := List.mem_map.mp hm
    exact hnew f hf he
  constructor
  · rw [List.map_append, List.map_append, List.map_singleton, List.map_singleton, eraseDups_concat,
      if_neg hm, h.order, hk]
  · intro c hm
    rcases List.mem_append.mp hm with hm | hm
    · exact (h.collects c hm).skip (hn c hm)
    · cases List.mem_singleton.mp hm
      exact hc

/-- Any other feature joins the clause of its kind, and no other clause changes. -/
theorem Group.join {features : List Feature} {before after : List Clause} {clause joined : Clause}
    (h : Group features (before ++ clause :: after)) {feature : Feature}
    (hk : clause.kind = feature.kind) (hj : clause.join? feature = some (.ok joined)) :
    Group (features ++ [feature]) (before ++ joined :: after) := by
  have hc : clause ∈ before ++ clause :: after := by simp
  obtain ⟨hkj, hcj⟩ := (h.collects clause hc).join hj
  have hmap : (before ++ joined :: after).map kind = (before ++ clause :: after).map kind := by
    simp [hkj]
  have hm : feature.kind ∈ features.map Feature.kind := by
    rw [← List.mem_eraseDups, ← h.order, ← hk]
    exact List.mem_map_of_mem hc
  constructor
  · rw [hmap, h.order, List.map_append, List.map_singleton, eraseDups_concat, if_pos hm]
  · have hother : ∀ c ∈ before ++ after, c.kind ≠ feature.kind := by
      intro c hm he
      exact h.kind_not_mem (List.mem_map.mpr ⟨c, hm, he.trans hk.symm⟩)
    intro c hm
    by_cases he : c = joined
    · rw [he]
      exact hcj
    · have hm : c ∈ before ++ after := by simpa [he] using hm
      have hin : c ∈ before ++ clause :: after :=
        List.append_subset.mpr ⟨List.subset_append_left _ _, by simp⟩ hm
      exact (h.collects c hin).skip (hother c hm)

/-- Inserting a feature keeps one clause for each kind. -/
theorem Group.insert {features : List Feature} {clauses next : List Clause}
    (h : Group features clauses) {feature : Feature} (hi : insert clauses feature = .ok next) :
    Group (features ++ [feature]) next := by
  rcases insert_cases hi with
    ⟨clause, hn, hf, rfl⟩ | ⟨before, clause, joined, after, rfl, hk, hj, rfl⟩
  · exact h.concat hn hf
  · exact h.join hk hj

/-! ### Consistency -/

private theorem Group.exists_clause {features : List Feature} {clauses : List Clause}
    (h : Group features clauses) {feature : Feature} (hf : feature ∈ features) :
    ∃ clause ∈ clauses, clause.kind = feature.kind :=
  List.mem_map.mp ((h.kinds feature.kind).mpr ⟨feature, hf, rfl⟩)

/-- Features that have been grouped are consistent. -/
theorem Group.consistent {features : List Feature} {clauses : List Clause}
    (h : Group features clauses) : Consistent features where
  accessFlags ha hb := by
    obtain ⟨clause, hc, hk⟩ := h.exists_clause ha
    cases clause <;> cases hk
    have hf := h.collects _ hc
    exact ((hf _).mp ha).trans ((hf _).mp hb).symm
  returnType ha hb := by
    obtain ⟨clause, hc, hk⟩ := h.exists_clause ha
    cases clause <;> cases hk
    have hf := h.collects _ hc
    exact ((hf _).mp ha).trans ((hf _).mp hb).symm
  parameters ha hb := by
    obtain ⟨clause, hc, hk⟩ := h.exists_clause ha
    cases clause <;> cases hk
    have hf := h.collects _ hc
    exact ((hf _).mp ha).trans ((hf _).mp hb).symm
  named ho := by
    obtain ⟨clause, hc, hk⟩ := h.exists_clause ho
    cases clause <;> cases hk
    obtain ⟨name, hn, _⟩ := (h.collects _ hc).1 _ _ ho
    rw [hn]
    rfl
  opcode ha hb := by
    obtain ⟨clause, hc, hk⟩ := h.exists_clause ha
    cases clause <;> cases hk
    obtain ⟨name, hn, hl⟩ := (h.collects _ hc).1 _ _ ha
    obtain ⟨name', hn', hl'⟩ := (h.collects _ hc).1 _ _ hb
    rw [hn, hn', ← hl, hl']

private theorem Collects.exists_join {features : List Feature} {clause : Clause}
    (h : clause.Collects features) {feature : Feature} (hc : Consistent (features ++ [feature]))
    {result : Except RenderFault Clause} (hj : clause.join? feature = some result) :
    ∃ joined, result = .ok joined := by
  have hm {f : Feature} (hf : f ∈ features) : f ∈ features ++ [feature] :=
    List.mem_append_left _ hf
  have hlast : feature ∈ features ++ [feature] := by simp
  fun_cases join? clause feature with
  | case1 first flags =>
    cases hj
    have he := hc.accessFlags (hm ((h first).mpr rfl)) hlast
    exact ⟨_, if_pos he⟩
  | case2 first type =>
    cases hj
    have he := hc.returnType (hm ((h first).mpr rfl)) hlast
    exact ⟨_, if_pos he⟩
  | case3 first types =>
    cases hj
    have he := hc.parameters (hm ((h first).mpr rfl)) hlast
    exact ⟨_, if_pos he⟩
  | case4 => cases hj; exact ⟨_, rfl⟩
  | case5 => cases hj; exact ⟨_, rfl⟩
  | case6 => cases hj; exact ⟨_, rfl⟩
  | case7 names index opcode =>
    obtain ⟨name, hn⟩ := Option.isSome_iff_exists.mp (hc.named hlast)
    have ha : ∃ extended, nameAt names index name = .ok extended := by
      cases hl : names.lookup index with
      | none => exact ⟨_, nameAt_eq_ok_iff.mpr (.inl ⟨hl, rfl⟩)⟩
      | some first =>
        obtain ⟨before, after, rfl, _⟩ := List.lookup_eq_some_iff.mp hl
        obtain ⟨other, ho, hf⟩ := h.2 (index, first) (by simp)
        have he := hc.opcode (hm ho) hlast
        rw [hf, hn, Option.some.injEq] at he
        exact ⟨_, nameAt_eq_ok_iff.mpr (.inr ⟨he ▸ hl, rfl⟩)⟩
    obtain ⟨extended, ha⟩ := ha
    have hok := join?_opcodes_eq_ok_iff.mpr ⟨name, extended, hn, ha, rfl⟩
    rw [hj] at hok
    exact ⟨_, Option.some.inj hok⟩
  | case8 =>
    rw [join?] at hj
    · cases hj
    all_goals assumption

private theorem exists_ofFeature {feature : Feature}
    (hn : ∀ index opcode, feature = .opcodeAt index opcode → (Opcode.name? opcode).isSome) :
    ∃ clause, ofFeature feature = .ok clause := by
  cases feature with
  | opcodeAt index opcode =>
    obtain ⟨name, hname⟩ := Option.isSome_iff_exists.mp (hn index opcode rfl)
    rw [ofFeature, opcodeName_eq_ok_iff.mpr hname]
    exact ⟨_, rfl⟩
  | _ => exact ⟨_, rfl⟩

private theorem exists_insert {features : List Feature} {clauses : List Clause}
    (h : ∀ c ∈ clauses, c.Collects features) {feature : Feature}
    (hc : Consistent (features ++ [feature])) : ∃ next, insert clauses feature = .ok next := by
  induction clauses with
  | nil =>
    have hn : ∀ index opcode, feature = .opcodeAt index opcode →
        (Opcode.name? opcode).isSome := by
      rintro index opcode rfl
      exact hc.named (List.mem_append_right _ List.mem_cons_self)
    obtain ⟨clause, hf⟩ := exists_ofFeature hn
    rw [insert, hf]
    exact ⟨_, rfl⟩
  | cons clause clauses ih =>
    obtain ⟨hcl, h⟩ := List.forall_mem_cons.mp h
    rw [insert]
    split
    · next result hj =>
      obtain ⟨joined, rfl⟩ := hcl.exists_join hc hj
      exact ⟨_, rfl⟩
    · obtain ⟨next, hi⟩ := ih h
      rw [hi]
      exact ⟨_, rfl⟩

/-- The last feature is inserted among the clauses of those before it. -/
theorem ofFeatures_concat (features : List Feature) (feature : Feature) :
    ofFeatures (features ++ [feature]) =
      ofFeatures features >>= fun clauses ↦ insert clauses feature := by
  simp [ofFeatures, List.foldlM_append]

/-- Grouping gives one clause for each kind of features. -/
theorem group_of_ofFeatures {features : List Feature} {clauses : List Clause}
    (h : ofFeatures features = .ok clauses) : Group features clauses := by
  induction features using List.reverseRecOn generalizing clauses with
  | nil =>
    cases h
    exact ⟨rfl, nofun⟩
  | append_singleton features feature ih =>
    rw [ofFeatures_concat] at h
    cases ho : ofFeatures features with
    | error fault =>
      rw [ho] at h
      cases h
    | ok clauses =>
      rw [ho] at h
      exact (ih ho).insert h

/-- Consistent features can be grouped. -/
theorem exists_ofFeatures {features : List Feature} (h : Consistent features) :
    ∃ clauses, ofFeatures features = .ok clauses := by
  induction features using List.reverseRecOn with
  | nil => exact ⟨[], rfl⟩
  | append_singleton features feature ih =>
    obtain ⟨clauses, ho⟩ := ih (h.mono fun f hf ↦ List.mem_append_left _ hf)
    obtain ⟨next, hi⟩ := exists_insert (group_of_ofFeatures ho).collects h
    rw [ofFeatures_concat, ho]
    exact ⟨next, hi⟩

end Clause

end MethodPrint
