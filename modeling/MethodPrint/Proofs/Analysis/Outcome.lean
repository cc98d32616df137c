import MethodPrint.Analysis
import MethodPrint.Proofs.Feature.Rendering
import MethodPrint.Proofs.Resolve.Containment
import MethodPrint.Proofs.Search.Distinguishing

/-!
# Outcomes of an analysis

Analysing an indexed method fails in three ways: an opcode without a name cannot be rendered, the
search fails, or a fingerprint is ambiguous because another method imitates the analysed one.
-/

namespace MethodPrint

namespace Index

private theorem renderFeatures_of_render {features : List Feature} {text : String}
    (h : render features = .ok text) : renderFeatures features = .ok text := by
  rw [renderFeatures, h]
  rfl

private theorem exists_renderFeatures_eq_error {features : List Feature}
    (h : HasUnnamedOpcode features) :
    ∃ fault, renderFeatures features = .error (.render fault) := by
  cases ho : Clause.ofFeatures features with
  | error fault =>
    refine ⟨fault, ?_⟩
    rw [renderFeatures, render_of_ofFeatures_eq_error ho]
    rfl
  | ok clauses =>
    obtain ⟨index, opcode, hm, hn⟩ := h
    have hs := (Clause.group_of_ofFeatures ho).consistent.named hm
    rw [hn] at hs
    cases hs

/-! ### Checking one set -/

/-- The fingerprint of some features is read, leads to the target, and to no other method alone. -/
def Leads (index : Index) (target : MethodId) (features : List Feature) : Prop :=
  ∃ text predicate, render features = .ok text ∧ Evaluator.language text = .accepted predicate ∧
    (∃ entry ∈ index.resolveAll predicate, entry.id = target) ∧
    ∀ entry, index.resolveUnique predicate = .ok entry → entry.id = target

/-- Some indexed method imitates those that carry some features. -/
def HasImitator (index : Index) (features : List Feature) : Prop :=
  ∃ other ∈ index.methods.toList, other.Imitates features

/-- A rendered set has the features and the strategy of a set and their text. -/
structure Presents (set : MinimalSet) (rendered : RenderedSet) : Prop where
  features_eq : rendered.features = set.features
  render_eq : render set.features = .ok rendered.fingerprint
  strategy_eq : rendered.strategy = set.strategy

variable {window : Nat} {members : List Member} {index : Index} {position : Nat}
  {entry : IndexedMethod}

/-- A distinguishing set is rendered, unless and only unless it has an imitator. Its text leads to
the method in any case. -/
theorem Represents.renderSet_cases (h : index.Represents window members)
    (he : index.method? position = some entry) (hr : Renderable entry.features)
    {set : MinimalSet} (hd : set.Distinguishes index entry.id position entry.features) :
    index.Leads entry.id set.features ∧
      (¬index.HasImitator set.features ∧
          (∃ rendered, index.renderSet .language set = .ok rendered ∧ Presents set rendered) ∨
        index.HasImitator set.features ∧ ∃ found, index.renderSet .language set =
          .error (.roundTrip entry.id (FingerprintError.ambiguousMatch found).message)) := by
  have hf := subset_of_distinguishes hd
  obtain ⟨text, ht⟩ := exists_render_iff.mpr (hr.mono fun f hm ↦ hf hm)
  obtain ⟨predicate, ha, hs⟩ := exists_accepted_of_render ht
  have hself : entry ∈ index.resolveAll predicate :=
    (h.mem_resolveAll_iff he hf hs).mpr ⟨mem_methods_iff.mpr ⟨position, he⟩, .inl fun f hm ↦ hf hm⟩
  have hset : index.renderSet .language set = (do
      index.verify .language set.target text
      return ⟨set.features, text, set.strategy⟩) := by
    rw [renderSet, renderFeatures_of_render ht]
    rfl
  rw [hset, verify, ha, hd.target_eq]
  rcases h.resolveUnique_cases he hf hd.isolates hs with ⟨hn, hu⟩ | ⟨hi, found, hu⟩
  · refine ⟨⟨text, predicate, ht, ha, ⟨entry, hself, rfl⟩, ?_⟩, .inl ⟨?_, ?_⟩⟩
    · intro other ho
      rw [hu, Except.ok.injEq] at ho
      rw [ho]
    · rintro ⟨other, ho, hi⟩
      exact hn other ho hi
    · refine ⟨⟨set.features, text, set.strategy⟩, ?_, rfl, ht, rfl⟩
      simp only [hu, ↓reduceIte]
      rfl
  · refine ⟨⟨text, predicate, ht, ha, ⟨entry, hself, rfl⟩, ?_⟩, .inr ⟨hi, found, ?_⟩⟩
    · intro other ho
      rw [hu] at ho
      cases ho
    · simp only [hu]
      rfl

private theorem Represents.presents_of_renderSet (h : index.Represents window members)
    (he : index.method? position = some entry) (hr : Renderable entry.features)
    {set : MinimalSet} (hd : set.Distinguishes index entry.id position entry.features)
    {rendered : RenderedSet} (ho : index.renderSet .language set = .ok rendered) :
    ¬index.HasImitator set.features ∧ Presents set rendered := by
  rcases (h.renderSet_cases he hr hd).2 with ⟨hn, other, hother, hp⟩ | ⟨_, found, hf⟩
  · rw [hother, Except.ok.injEq] at ho
    exact ⟨hn, ho ▸ hp⟩
  · rw [hf] at ho
    cases ho

private theorem Represents.roundTrip_of_renderSet (h : index.Represents window members)
    (he : index.method? position = some entry) (hr : Renderable entry.features)
    {set : MinimalSet} (hd : set.Distinguishes index entry.id position entry.features)
    {error : FingerprintError} (hf : index.renderSet .language set = .error error) :
    index.HasImitator set.features ∧
      ∃ found, error = .roundTrip entry.id (FingerprintError.ambiguousMatch found).message := by
  rcases (h.renderSet_cases he hr hd).2 with ⟨_, other, hother, _⟩ | ⟨hi, found, hfound⟩
  · rw [hother] at hf
    cases hf
  · rw [hfound, Except.error.injEq] at hf
    exact ⟨hi, found, hf.symm⟩

/-! ### The whole analysis -/

/-- An analysis presents sets in their order, next to the text and the number of all features. -/
structure PresentsAll (features : List Feature) (sets : List MinimalSet) (analysis : Analysis) :
    Prop where
  render_eq : render features = .ok analysis.fullFingerprint
  count_eq : analysis.fullFeatureCount = features.length
  presents : List.Forall₂ Presents sets analysis.fingerprints

/-- At the position of one of the target's opcodes another method has a different mnemonic of the
same name. -/
def HasHomonym (index : Index) (target : MethodId) (features : List Feature) : Prop :=
  ∃ other ∈ index.methods.toList, other.id ≠ target ∧ ∃ place opcode mnemonic name,
    .opcodeAt place opcode ∈ features ∧ .opcodeAt place mnemonic ∈ other.features ∧
      mnemonic ≠ opcode ∧ Opcode.name? mnemonic = some name ∧ Opcode.name? opcode = some name

/-- What analysing a target gives once it is solved: all sets in case none of them has an
imitator, and a failed check otherwise. -/
structure Verdict (index : Index) (target : MethodId) (features : List Feature)
    (sets : List MinimalSet) (result : Except FingerprintError Analysis) : Prop where
  leads : ∀ set ∈ sets, index.Leads target set.features
  presented : (∀ set ∈ sets, ¬index.HasImitator set.features) →
    ∃ analysis, result = .ok analysis ∧ PresentsAll features sets analysis
  imitated : (∃ set ∈ sets, index.HasImitator set.features) →
    ∃ found, result = .error (.roundTrip target (FingerprintError.ambiguousMatch found).message)

/-- Why analysing a target with some features fails. -/
inductive Failure (index : Index) (target : MethodId) (features : List Feature) :
    FingerprintError → Prop where
  | render (fault : RenderFault) (h : HasUnnamedOpcode features) :
    Failure index target features (.render fault)
  | cancelled : Failure index target features .cancelled
  | noDistinguishingSet (twins : List MethodId) :
    Failure index target features (.noDistinguishingSet target twins)
  | roundTrip (found : List MethodId) (h : index.HasHomonym target features) :
    Failure index target features
      (.roundTrip target (FingerprintError.ambiguousMatch found).message)

/-- What analysing a target with some features gives. -/
structure Account (index : Index) (config : SolverConfig) (target : MethodId) (cancelled : Bool)
    (features : List Feature) (result : Except FingerprintError Analysis) : Prop where
  unrendered : (∃ fault, result = .error (.render fault)) ↔ HasUnnamedOpcode features
  unsolved : ¬HasUnnamedOpcode features → ∀ error,
    index.solve config target cancelled = .error error → result = .error error
  solved : ¬HasUnnamedOpcode features → ∀ sets,
    index.solve config target cancelled = .ok sets → index.Verdict target features sets result
  roundTrip : ∀ id reason, result = .error (.roundTrip id reason) → id = target ∧
    (∃ found, reason = (FingerprintError.ambiguousMatch found).message) ∧
      index.HasHomonym target features

namespace Represents

/-- An imitator of some of a method's features has a homonym of one of its opcodes. -/
theorem hasHomonym_of_hasImitator (h : index.Represents window members)
    (he : index.method? position = some entry) (hr : Renderable entry.features)
    {features : List Feature} (hf : features ⊆ entry.features) (hi : index.HasImitator features) :
    index.HasHomonym entry.id entry.features := by
  obtain ⟨other, ho, hi⟩ := hi
  obtain ⟨place, opcode, mnemonic, hopcode, hmnemonic, hne⟩ := hi.differs
  obtain ⟨same, hsame, hname⟩ := hi.named place opcode hopcode
  obtain ⟨name, hn⟩ := Option.isSome_iff_exists.mp (hr.named (hf hopcode))
  obtain ⟨spot, ha⟩ := mem_methods_iff.mp ho
  have hfeatures := h.features_eq ha
  obtain rfl : same = mnemonic := by
    rw [hfeatures] at hsame hmnemonic
    exact Method.opcodeAt_mem_features_inj hsame hmnemonic
  refine ⟨other, ho, ?_, place, opcode, same, name, hf hopcode, hsame, hne, hname.trans hn, hn⟩
  intro hid
  obtain rfl := h.position_inj ha he hid
  obtain rfl : other = entry := Option.some.inj (ha.symm.trans he)
  have hopcode := hf hopcode
  rw [hfeatures] at hsame hopcode
  exact hne (Method.opcodeAt_mem_features_inj hsame hopcode)

/-- The steps of analysing an indexed method. -/
theorem analyse_eq (h : index.Represents window members)
    (he : index.method? position = some entry) (config : SolverConfig) (evaluator : Evaluator)
    (cancelled : Bool) :
    index.analyse config evaluator entry.id cancelled = (do
      let fullFingerprint ← renderFeatures entry.features
      let sets ← index.solve config entry.id cancelled
      let fingerprints ← sets.mapM (index.renderSet evaluator)
      return ⟨fullFingerprint, entry.features.length, fingerprints⟩) := by
  have hf : index.features? entry.id = some entry.features :=
    h.features?_eq_some_iff.mpr ⟨position, entry, h.position?_id he, he, rfl, rfl⟩
  rw [analyse, hf]

/-- All features of an indexed method can be rendered unless an opcode has no name. -/
theorem renderable_iff (h : index.Represents window members)
    (he : index.method? position = some entry) :
    Renderable entry.features ↔ ¬HasUnnamedOpcode entry.features := by
  rw [h.features_eq he]
  exact Method.renderable_iff_of_subset (List.Subset.refl _)

/-- An opcode without a name keeps a method from being analysed. -/
theorem exists_analyse_eq_render (h : index.Represents window members)
    (he : index.method? position = some entry) (hu : HasUnnamedOpcode entry.features)
    (config : SolverConfig) (evaluator : Evaluator) (cancelled : Bool) :
    ∃ fault, index.analyse config evaluator entry.id cancelled = .error (.render fault) := by
  obtain ⟨fault, hf⟩ := exists_renderFeatures_eq_error hu
  refine ⟨fault, ?_⟩
  rw [h.analyse_eq he, hf]
  rfl

/-- A failed search fails the analysis. -/
theorem analyse_of_solve_eq_error (h : index.Represents window members)
    (he : index.method? position = some entry) (hu : ¬HasUnnamedOpcode entry.features)
    {config : SolverConfig} {cancelled : Bool} {error : FingerprintError}
    (hs : index.solve config entry.id cancelled = .error error) (evaluator : Evaluator) :
    index.analyse config evaluator entry.id cancelled = .error error := by
  obtain ⟨text, ht⟩ := exists_render_iff.mpr ((h.renderable_iff he).mpr hu)
  rw [h.analyse_eq he, renderFeatures_of_render ht, hs]
  rfl

/-- After a search that succeeds, the analysis does so as well unless a set has an imitator. -/
theorem analyse_of_solve_eq_ok (h : index.Represents window members)
    (he : index.method? position = some entry) (hu : ¬HasUnnamedOpcode entry.features)
    {config : SolverConfig} {cancelled : Bool} {sets : List MinimalSet}
    (hs : index.solve config entry.id cancelled = .ok sets) :
    index.Verdict entry.id entry.features sets
      (index.analyse config .language entry.id cancelled) := by
  have hr := (h.renderable_iff he).mpr hu
  obtain ⟨text, ht⟩ := exists_render_iff.mpr hr
  have hd := h.distinguishes_of_solve he hs
  rw [h.analyse_eq he, renderFeatures_of_render ht, hs]
  change index.Verdict entry.id entry.features sets (do
    let fingerprints ← sets.mapM (index.renderSet .language)
    return ⟨text, entry.features.length, fingerprints⟩)
  refine ⟨fun set hset ↦ (h.renderSet_cases he hr (hd set hset)).1, ?_, ?_⟩
  · intro hn
    cases hm : sets.mapM (index.renderSet .language) with
    | ok fingerprints =>
      refine ⟨_, rfl, ht, rfl, ?_⟩
      have hp : ∀ set ∈ sets, ∀ rendered, index.renderSet .language set = .ok rendered →
          Presents set rendered :=
        fun set hset _ ho ↦ (h.presents_of_renderSet he hr (hd set hset) ho).2
      exact ((List.forall₂_and_left _ _).mpr ⟨hp, mapM_eq_ok_iff.mp hm⟩).imp
        fun _ rendered ⟨hp, ho⟩ ↦ hp rendered ho
    | error error =>
      obtain ⟨set, hset, hf⟩ := exists_of_mapM_eq_error hm
      exact absurd (h.roundTrip_of_renderSet he hr (hd set hset) hf).1 (hn set hset)
  · rintro ⟨set, hset, hi⟩
    cases hm : sets.mapM (index.renderSet .language) with
    | ok fingerprints =>
      obtain ⟨rendered, ho⟩ := exists_of_mapM_eq_ok hm set hset
      exact absurd hi (h.presents_of_renderSet he hr (hd set hset) ho).1
    | error error =>
      obtain ⟨other, hother, hf⟩ := exists_of_mapM_eq_error hm
      obtain ⟨_, found, rfl⟩ := h.roundTrip_of_renderSet he hr (hd other hother) hf
      exact ⟨found, rfl⟩

/-- Analysing an indexed method fails for four reasons only. -/
theorem failure_of_analyse (h : index.Represents window members)
    (he : index.method? position = some entry) {config : SolverConfig} {cancelled : Bool}
    {error : FingerprintError}
    (hf : index.analyse config .language entry.id cancelled = .error error) :
    index.Failure entry.id entry.features error := by
  by_cases hu : HasUnnamedOpcode entry.features
  · obtain ⟨fault, hr⟩ := h.exists_analyse_eq_render he hu config .language cancelled
    rw [hr] at hf
    cases hf
    exact .render fault hu
  cases hs : index.solve config entry.id cancelled with
  | error other =>
    rw [h.analyse_of_solve_eq_error he hu hs] at hf
    cases hf
    rcases h.eq_of_solve_eq_error he hs with rfl | ⟨twins, rfl⟩
    · exact .cancelled
    · exact .noDistinguishingSet twins
  | ok sets =>
    have hv := h.analyse_of_solve_eq_ok he hu hs
    by_cases hi : ∃ set ∈ sets, index.HasImitator set.features
    · obtain ⟨found, hr⟩ := hv.imitated hi
      rw [hr] at hf
      cases hf
      obtain ⟨set, hset, hi⟩ := hi
      have hd := h.distinguishes_of_solve he hs set hset
      exact .roundTrip found (h.hasHomonym_of_hasImitator he ((h.renderable_iff he).mpr hu)
        (subset_of_distinguishes hd) hi)
    · obtain ⟨analysis, hr, _⟩ := hv.presented fun set hset hn ↦ hi ⟨set, hset, hn⟩
      rw [hr] at hf
      cases hf

/-- Whatever imitates all features of a method imitates those that belong to no other method. -/
theorem hasImitator_of_subset (h : index.Represents window members)
    (he : index.method? position = some entry) (hr : Renderable entry.features)
    {features : List Feature} (hsub : features ⊆ entry.features)
    (ha : index.ambiguity features = #[position]) (hi : index.HasImitator entry.features) :
    index.HasImitator features := by
  obtain ⟨other, ho, hi⟩ := hi
  obtain ⟨place, hp⟩ := mem_methods_iff.mp ho
  have hf := h.features_eq he
  have hall : entry.features ⊆ entry.method.features window := by rw [hf]; exact fun _ ↦ id
  have hmet : ∀ f ∈ entry.features, f.MetBy other.method :=
    (forall_metBy_iff hall hr.named (h.features_eq hp)).mpr (.inr hi)
  refine ⟨other, ho, ?_⟩
  -- The imitator meets these features as well; it cannot carry them, as no other method does.
  rcases (forall_metBy_iff (List.Subset.trans hsub hall) (hr.mono hsub).named
    (h.features_eq hp)).mp fun f hm ↦ hmet f (hsub hm) with hcarries | himitates
  · obtain rfl := (h.ambiguity_eq_singleton_iff he hsub).mp ha place other hp hcarries
    obtain rfl : other = entry := Option.some.inj (hp.symm.trans he)
    exact absurd (fun _ ↦ id) (hi.not_carries hf)
  · exact himitates

/-- A method all of whose features are imitated, and carried by no other method, never passes its
check. -/
theorem exists_analyse_eq_roundTrip (h : index.Represents window members)
    (he : index.method? position = some entry) (hu : ¬HasUnnamedOpcode entry.features)
    (hi : index.HasImitator entry.features)
    (ha : index.ambiguity entry.features = #[position]) (config : SolverConfig) :
    ∃ found, index.analyse config .language entry.id false =
      .error (.roundTrip entry.id (FingerprintError.ambiguousMatch found).message) := by
  obtain ⟨sets, hs⟩ := h.exists_solve he ha config
  apply (h.analyse_of_solve_eq_ok he hu hs).imitated
  obtain ⟨set, hset⟩ := List.exists_mem_of_ne_nil _ (h.ne_nil_of_solve he hs)
  have hd := h.distinguishes_of_solve he hs set hset
  exact ⟨set, hset, h.hasImitator_of_subset he ((h.renderable_iff he).mpr hu)
    (subset_of_distinguishes hd) hd.isolates hi⟩

/-- A method that can be told apart and rendered passes its check if no opcode has a homonym. -/
theorem exists_analyse_of_not_hasHomonym (h : index.Represents window members)
    (he : index.method? position = some entry) (hu : ¬HasUnnamedOpcode entry.features)
    (hn : ¬index.HasHomonym entry.id entry.features)
    (ha : index.ambiguity entry.features = #[position]) (config : SolverConfig) :
    ∃ analysis, index.analyse config .language entry.id false = .ok analysis := by
  obtain ⟨sets, hs⟩ := h.exists_solve he ha config
  obtain ⟨analysis, hok, _⟩ := (h.analyse_of_solve_eq_ok he hu hs).presented fun set hset hi ↦
    hn (h.hasHomonym_of_hasImitator he ((h.renderable_iff he).mpr hu)
      (subset_of_distinguishes (h.distinguishes_of_solve he hs set hset)) hi)
  exact ⟨analysis, hok⟩

/-- An analysis that succeeds presents the sets of a solution, none of which has an imitator. -/
theorem exists_solve_of_analyse (h : index.Represents window members)
    (he : index.method? position = some entry) {config : SolverConfig} {cancelled : Bool}
    {analysis : Analysis}
    (hok : index.analyse config .language entry.id cancelled = .ok analysis) :
    ∃ sets, index.solve config entry.id cancelled = .ok sets ∧
      PresentsAll entry.features sets analysis ∧
      ∀ set ∈ sets, ¬index.HasImitator set.features := by
  have hu : ¬HasUnnamedOpcode entry.features := by
    intro hu
    obtain ⟨fault, hf⟩ := h.exists_analyse_eq_render he hu config .language cancelled
    rw [hf] at hok
    cases hok
  cases hs : index.solve config entry.id cancelled with
  | error error =>
    rw [h.analyse_of_solve_eq_error he hu hs] at hok
    cases hok
  | ok sets =>
    have hv := h.analyse_of_solve_eq_ok he hu hs
    have hn : ∀ set ∈ sets, ¬index.HasImitator set.features := by
      intro set hset hi
      obtain ⟨found, hf⟩ := hv.imitated ⟨set, hset, hi⟩
      rw [hf] at hok
      cases hok
    obtain ⟨other, ho, hp⟩ := hv.presented hn
    obtain rfl : other = analysis := Except.ok.inj (ho.symm.trans hok)
    exact ⟨sets, rfl, hp, hn⟩

end Represents

/-- Whatever the members, the target and the configuration: analysing says that a method is unknown
if it is not indexed, and what the account of its features says otherwise. -/
theorem account_of_analyse {corpusId : String} (hb : build corpusId window members = .ok index)
    (config : SolverConfig) (target : MethodId) (cancelled : Bool) :
    (index.analyse config .language target cancelled = .error (.unknownMethod target) ↔
        ∀ entry ∈ index.methods.toList, entry.id ≠ target) ∧
      ∀ entry ∈ index.methods.toList, entry.id = target →
        index.Account config target cancelled entry.features
          (index.analyse config .language target cancelled) := by
  have h := represents_of_build hb
  constructor
  · constructor
    · rintro hf entry hm rfl
      obtain ⟨position, he⟩ := mem_methods_iff.mp hm
      cases h.failure_of_analyse he hf
    · intro hn
      apply analyse_of_features?_eq_none
      rw [h.features?_eq_none_iff, Option.eq_none_iff_forall_ne_some]
      intro position hp
      obtain ⟨entry, he, hid⟩ := h.position?_iff.mp hp
      exact hn entry (mem_methods_iff.mpr ⟨position, he⟩) hid
  · rintro entry hm rfl
    obtain ⟨position, he⟩ := mem_methods_iff.mp hm
    refine ⟨⟨?_, ?_⟩, ?_, ?_, ?_⟩
    · rintro ⟨fault, hf⟩
      cases h.failure_of_analyse he hf with
      | render _ hu => exact hu
    · exact fun hu ↦ h.exists_analyse_eq_render he hu config .language cancelled
    · exact fun hu error hs ↦ h.analyse_of_solve_eq_error he hu hs .language
    · exact fun hu sets hs ↦ h.analyse_of_solve_eq_ok he hu hs
    · intro id reason hf
      cases h.failure_of_analyse he hf with
      | roundTrip found hh => exact ⟨rfl, ⟨found, rfl⟩, hh⟩

/-- The account of a method that another one imitates. -/
theorem account_of_analyse_imitated :
    let slash : Method :=
      { id := ⟨"LA;->a()V"⟩, returnType := "V", instructions := [{ opcode := "const/4" }] }
    let dash : Method :=
      { id := ⟨"LA;->b()V"⟩, returnType := "V", instructions := [{ opcode := "const-4" }] }
    ∃ index, build "alike" 1 [.method slash, .method dash] = .ok index ∧
      (index.analyse {} .language slash.id false = .error (.unknownMethod slash.id) ↔
        ∀ entry ∈ index.methods.toList, entry.id ≠ slash.id) ∧
      ∀ entry ∈ index.methods.toList, entry.id = slash.id →
        index.Account {} slash.id false entry.features
          (index.analyse {} .language slash.id false) := by
  intro slash dash
  obtain ⟨index, hb⟩ : ∃ index, build "alike" 1 [.method slash, .method dash] = .ok index :=
    exists_build "alike" 1 (by decide) (by decide) (by decide) (by decide)
  exact ⟨index, hb, account_of_analyse hb {} slash.id false⟩

end Index

end MethodPrint
