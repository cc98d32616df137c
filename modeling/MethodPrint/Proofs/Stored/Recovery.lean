import Mathlib.Data.List.Permutation
import MethodPrint.Proofs.Stored.Corpus

/-!
# Stored values are recovered

Everything that is stored is read back from its text: corpora, members, methods, instructions,
features, distinguishing sets, reports and resolutions, compact or pretty, with the fields of every
object in any order and with or without those that hold their default.
-/

namespace MethodPrint

open Json

variable {fields others : List (String × Value)}

/-! ### Features -/

/-- A feature that can be stored: a position has at most 64 bits. -/
def Feature.IsStorable : Feature → Prop
  | .opcodeAt index _ => index < UInt64.size
  | _ => True

instance Feature.decidableIsStorable : (feature : Feature) → Decidable feature.IsStorable
  | .opcodeAt index _ => inferInstanceAs (Decidable (index < UInt64.size))
  | .accessFlags _ | .returnType _ | .parameters _ | .stringLiteral _ | .invokedMethod _
  | .literal _ => isTrue trivial

private theorem Feature.recovers_storedValue {feature : Feature} (h : feature.IsStorable) :
    Recovers feature.kind.readValue feature.storedValue feature := by
  cases feature with
  | accessFlags flags => exact (recovers_word32 flags).map Feature.accessFlags
  | returnType type => exact (recovers_string type).map Feature.returnType
  | parameters types =>
    exact (recovers_list fun type _ ↦ recovers_string type).map Feature.parameters
  | stringLiteral value => exact (recovers_string value).map Feature.stringLiteral
  | invokedMethod signature => exact (recovers_string signature).map Feature.invokedMethod
  | literal value => exact (recovers_int64 value).map Feature.literal
  | opcodeAt index opcode =>
    apply recovers_object (by simp)
    intro others ho
    change opcodeAtShape.readEntries (fieldsTree others) = _
    rw [opcodeAtShape, Shape.readEntries_map,
      ho.readEntries_field (by simp [storedNat]) (recovers_nat64 h) <|
      ho.readEntries_field (by simp) (recovers_string opcode) <|
      Shape.readEntries_done others]
    rfl

private theorem Feature.plain_storedValue {feature : Feature} (h : feature.IsStorable) :
    feature.storedValue.Plain 1 := by
  cases feature with
  | accessFlags flags => exact plain_word32 1 flags
  | returnType type => exact .string 1 type
  | parameters types => exact plain_storedList fun type ↦ .string 0 type
  | stringLiteral value => exact .string 1 value
  | invokedMethod signature => exact .string 1 signature
  | literal value => exact plain_int64 1 value
  | opcodeAt index opcode =>
    refine .object fun name value hm ↦ ?_
    simp only [List.mem_cons, Prod.mk.injEq, List.not_mem_nil, or_false] at hm
    rcases hm with ⟨_, rfl⟩ | ⟨_, rfl⟩
    · exact plain_storedNat 0 h
    · exact .string 0 opcode

private theorem Restates.pair {first second : String} {a b value : Value}
    (h : (Value.object [(first, a), (second, b)]).Restates value)
    (hf : (first, a) ∉ omittable) (hs : (second, b) ∉ omittable) :
    ∃ a' b', a.Restates a' ∧ b.Restates b' ∧
      (value = .object [(first, a'), (second, b')] ∨
        value = .object [(second, b'), (first, a')]) := by
  cases h with
  | @object _ thinned others ht hp =>
    cases ht with
    | skip ho => exact absurd ho hf
    | keep ha ht =>
      cases ht with
      | skip ho => exact absurd ho hs
      | keep hb ht =>
        cases ht
        have hm := List.mem_permutations'.mpr hp.symm
        simp [List.permutations', List.permutations'Aux] at hm
        rcases hm with rfl | rfl
        · exact ⟨_, _, ha, hb, .inl rfl⟩
        · exact ⟨_, _, ha, hb, .inr rfl⟩

/-- A feature is recovered whether its kind or its value comes first, unless it is nested too deep
for the value to be kept. -/
theorem Feature.recovers {feature : Feature} (h : feature.IsStorable) {depth : Nat}
    (hd : depth + 2 < nestingLimit) :
    Recovers (Feature.readWithin depth) feature.stored feature := by
  have hkind : FeatureKind.read (.string (.ok feature.kind.name)) = .ok feature.kind :=
    recovers_variant feature.kind.ofName?_name _ (.string _)
  intro other hr
  obtain ⟨_, value, ⟨⟩, hv, rfl | rfl⟩ :=
    Restates.pair hr (by simp [omittable]) (by simp [omittable])
  -- After its kind the value is read at once; before it the value has to be kept.
  · have hvalue := Feature.recovers_storedValue h value hv
    simp [Value.tree, fieldsTree, Feature.readWithin, readFeature, FeatureDraft.addKind,
      FeatureDraft.addValue, hkind, hvalue, Except.map]
  · have hkept := ((Feature.plain_storedValue h).of_restates hv).keepFault?_tree
      (depth + 1) (by omega)
    have hvalue := (Feature.recovers_storedValue h).ofKept value hv
    simp [Value.tree, fieldsTree, Feature.readWithin, readFeature, FeatureDraft.addKind,
      FeatureDraft.addValue, hkind, hvalue, hkept, Except.map]

/-! ### Results -/

/-- A set that can be stored: its positions have at most 64 bits. -/
def MinimalSet.IsStorable (set : MinimalSet) : Prop :=
  (∀ index ∈ set.indices, index < UInt64.size) ∧ ∀ feature ∈ set.features, feature.IsStorable

/-- A report that can be stored: its numbers and its positions have at most 64 bits. -/
def Report.IsStorable (report : Report) : Prop :=
  report.generation < UInt64.size ∧ report.fullFeatureCount < UInt64.size ∧
    ∀ set ∈ report.fingerprints, ∀ feature ∈ set.features, feature.IsStorable

instance (set : MinimalSet) : Decidable set.IsStorable :=
  inferInstanceAs (Decidable (_ ∧ _))

instance (report : Report) : Decidable report.IsStorable :=
  inferInstanceAs (Decidable (_ ∧ _ ∧ _))

/-- A strategy is recovered. -/
theorem Strategy.recovers (strategy : Strategy) :
    Recovers Strategy.read strategy.stored strategy := recovers_variant strategy.ofName?_name

/-- A distinguishing set is recovered. -/
theorem MinimalSet.recovers {set : MinimalSet} (h : set.IsStorable) :
    Recovers MinimalSet.shape.read set.stored set := by
  refine Shape.recovers (by simp) fun others ho ↦ ?_
  rw [MinimalSet.shape, Shape.readEntries_map,
    ho.readEntries_field (by simp) set.target.recovers <|
    ho.readEntries_field (by simp [storedList, storedNat])
      (recovers_list fun index hi ↦ recovers_nat64 (h.1 index hi)) <|
    ho.readEntries_field (by simp [storedList])
      (recovers_list fun feature hf ↦ Feature.recovers (h.2 feature hf) (by decide)) <|
    ho.readEntries_field (by simp) set.strategy.recovers <|
    Shape.readEntries_done others]
  rfl

/-- A rendered set is recovered. -/
theorem RenderedSet.recovers {set : RenderedSet}
    (h : ∀ feature ∈ set.features, feature.IsStorable) :
    Recovers RenderedSet.shape.read set.stored set := by
  refine Shape.recovers (by simp) fun others ho ↦ ?_
  rw [RenderedSet.shape, Shape.readEntries_map,
    ho.readEntries_field (by simp [storedList])
      (recovers_list fun feature hf ↦ Feature.recovers (h feature hf) (by decide)) <|
    ho.readEntries_field (by simp) (recovers_string set.fingerprint) <|
    ho.readEntries_field (by simp) set.strategy.recovers <|
    Shape.readEntries_done others]
  rfl

/-- A report is recovered. -/
theorem Report.recovers {report : Report} (h : report.IsStorable) :
    Recovers Report.shape.read report.stored report := by
  obtain ⟨hgeneration, hcount, hsets⟩ := h
  refine Shape.recovers (by simp) fun others ho ↦ ?_
  rw [Report.shape, Shape.readEntries_map,
    ho.readEntries_field (by simp) report.method.recovers <|
    ho.readEntries_field (by simp) (recovers_string report.corpusId) <|
    ho.readEntries_field (by simp) (recovers_string report.corpusDigest) <|
    ho.readEntries_field (by simp [storedNat]) (recovers_nat64 hgeneration) <|
    ho.readEntries_field (by simp [storedNat]) (recovers_nat64 hcount) <|
    ho.readEntries_field (by simp) (recovers_string report.fullFingerprint) <|
    ho.readEntries_field (by simp [storedList])
      (recovers_list fun set hs ↦ RenderedSet.recovers (hsets set hs)) <|
    Shape.readEntries_done others]
  rfl

/-- A resolution is recovered. -/
theorem Resolution.recovers (resolution : Resolution) :
    Recovers Resolution.shape.read resolution.stored resolution := by
  refine Shape.recovers (by simp) fun others ho ↦ ?_
  rw [Resolution.shape, Shape.readEntries_map,
    ho.readEntries_field (by simp) resolution.method.recovers <|
    ho.readEntries_field (by simp [storedList])
      (recovers_list fun id (_ : id ∈ resolution.additional) ↦ id.recovers) <|
    Shape.readEntries_done others]
  rfl

/-! ### Texts -/

/-- A value is read back as a result from the texts of its restatements, compact and pretty. -/
def ReadBack {α : Type} (read : Read α) (value : Value) (result : α) : Prop :=
  ∀ other, value.Restates other → readText read other.compactText = .ok result ∧
    readText read other.prettyText = .ok result

private theorem readBack_of_recovers {α : Type} {read : Read α} {value : Value} {result : α}
    (h : Recovers read value result) : ReadBack read value result := by
  intro other hr
  rw [readText_compactText, readText_prettyText]
  exact ⟨h other hr, h other hr⟩

/-- All that is stored is read back from the texts of its stored form, with the fields of every
object in any order and any of those that hold their default left out. -/
theorem stored_readBack (corpus : Corpus) (member : Member) (method : Method)
    (instruction : Instruction) {feature : Feature} (hf : feature.IsStorable) {set : MinimalSet}
    (hs : set.IsStorable) {report : Report} (hr : report.IsStorable) (resolution : Resolution) :
    ReadBack Corpus.shape.read corpus.stored corpus ∧
      ReadBack Member.read member.stored member ∧
      ReadBack Method.shape.read method.stored method ∧
      ReadBack Instruction.shape.read instruction.stored instruction ∧
      ReadBack Feature.read feature.stored feature ∧
      ReadBack MinimalSet.shape.read set.stored set ∧
      ReadBack Report.shape.read report.stored report ∧
      ReadBack Resolution.shape.read resolution.stored resolution :=
  ⟨readBack_of_recovers corpus.recovers, readBack_of_recovers (member.recovers (by decide)),
    readBack_of_recovers method.recovers, readBack_of_recovers instruction.recovers,
    readBack_of_recovers (Feature.recovers hf (by decide)),
    readBack_of_recovers (MinimalSet.recovers hs), readBack_of_recovers (Report.recovers hr),
    readBack_of_recovers resolution.recovers⟩

/-- A method without flags, parameters and a body, stored without these and with its kind at the
end; and a report with a feature that holds a position. -/
theorem stored_readBack_backwards :
    let method : Method := { id := ⟨"LA;->a()V"⟩, returnType := "V" }
    let backwards : Value := .object [("return_type", .string "V"), ("id", .string "LA;->a()V"),
      ("kind", .string "method")]
    let feature : Feature := .opcodeAt 0 "return-void"
    let set : MinimalSet :=
      { target := method.id, indices := [3], features := [feature], strategy := .exhaustive }
    let report : Report :=
      { method := method.id, corpusId := "corpus", corpusDigest := "", generation := 1,
        fullFeatureCount := 4, fullFingerprint := "",
        fingerprints := [{ features := [feature], fingerprint := "", strategy := .exhaustive }] }
    (Member.method method).stored.Restates backwards ∧ set.IsStorable ∧ report.IsStorable ∧
      readText Member.read backwards.compactText = .ok (.method method) ∧
      readText MinimalSet.shape.read set.stored.compactText = .ok set ∧
      readText Report.shape.read report.stored.prettyText = .ok report := by
  intro method backwards feature set report
  have hf : feature.IsStorable := by decide
  have hs : set.IsStorable := by decide
  have hr : report.IsStorable := by decide
  have hb : (Member.method method).stored.Restates backwards := by
    have hthinned : Thinned Value.Restates (("kind", .string "method") :: method.storedFields)
        [("kind", .string "method"), ("id", .string "LA;->a()V"), ("return_type", .string "V")] :=
      .keep (.string _) <| .keep (.string _) <| .skip (by simp [omittable, storedNat, method]) <|
        .keep (.string _) <| .skip (by simp [omittable, storedList, method]) <|
        .skip (by simp [omittable, storedList, method]) .nil
    exact .object hthinned (List.reverse_perm _).symm
  obtain ⟨_, hmember, _, _, _, hset, hreport, _⟩ := stored_readBack ⟨"corpus", []⟩ (.method method)
    method { opcode := "return-void" } hf hs hr ⟨method.id, []⟩
  exact ⟨hb, hs, hr, (hmember _ hb).1, (hset _ (Value.Restates.refl _)).1,
    (hreport _ (Value.Restates.refl _)).2⟩

end MethodPrint
