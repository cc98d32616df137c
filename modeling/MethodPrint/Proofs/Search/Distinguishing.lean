import MethodPrint.Proofs.Search.Solve

/-!
# Distinguishing sets

A solution for a method is a list of feature sets that distinguish it: the ambiguity of each is the
method alone, and leaving out any feature lets another method in. Only a method all of whose
features belong to another method as well has no solution.
-/

namespace MethodPrint

/-- A set distinguishes the method at a position of an index: it has some of the method's features
in order, these belong to no other method, and without any one of them they do. -/
structure MinimalSet.Distinguishes (index : Index) (target : MethodId) (position : Nat)
    (features : List Feature) (set : MinimalSet) : Prop where
  target_eq : set.target = target
  ascending : set.indices.Pairwise (· < ·)
  inRange : ∀ i ∈ set.indices, i < features.length
  features_eq : set.features.map some = set.indices.map (features[·]?)
  isolates : index.ambiguity set.features = #[position]
  needed : ∀ place < set.features.length, ∃ other entry, other ≠ position ∧
    index.method? other = some entry ∧ ∀ f ∈ set.features.eraseIdx place, f ∈ entry.features
  /-- The other method is listed, unless no feature is left of a single one, of as many methods as
  there are positions. -/
  listed : ∀ place < set.features.length,
    (set.features.length = 1 → index.size < UInt32.size) →
      ∃ other ∈ index.ambiguity (set.features.eraseIdx place), other ≠ position

namespace Index

/-- The features of a set that distinguishes a method are some of the method's features. -/
theorem subset_of_distinguishes {index : Index} {target : MethodId} {position : Nat}
    {features : List Feature} {set : MinimalSet}
    (hd : set.Distinguishes index target position features) :
    set.features ⊆ features := by
  intro f hf
  have hm : some f ∈ set.features.map some := List.mem_map_of_mem hf
  rw [hd.features_eq] at hm
  obtain ⟨i, _, hi⟩ := List.mem_map.mp hm
  exact List.mem_of_getElem? hi

/-- An identifier without a position is unknown. -/
theorem solve_of_position?_eq_none {index : Index} {target : MethodId}
    (hn : index.position? target = none) (config : SolverConfig) (cancelled : Bool) :
    index.solve config target cancelled = .error (.unknownMethod target) := by
  simp [solve, hn]

namespace Represents

variable {window : Nat} {members : List Member} {index : Index} {position : Nat}
  {entry : IndexedMethod}

private theorem filterMap_eraseIdx {features : List Feature} {set : List Nat}
    (hs : ∀ i ∈ set, i < features.length) (place : Nat) :
    (set.eraseIdx place).filterMap (features[·]?) =
      (set.filterMap (features[·]?)).eraseIdx place := by
  induction set generalizing place with
  | nil => simp
  | cons i set ih =>
    obtain ⟨hi, hs⟩ := List.forall_mem_cons.mp hs
    have hg := List.getElem?_eq_getElem hi
    cases place with
    | zero => simp [hg]
    | succ place => simp [hg, ih hs]

private theorem map_some_filterMap {features : List Feature} {set : List Nat}
    (hs : ∀ i ∈ set, i < features.length) :
    (set.filterMap (features[·]?)).map some = set.map (features[·]?) := by
  induction set with
  | nil => rfl
  | cons i set ih =>
    obtain ⟨hi, hs⟩ := List.forall_mem_cons.mp hs
    have hg := List.getElem?_eq_getElem hi
    rw [List.filterMap_cons_some hg, List.map_cons, List.map_cons, hg, ih hs]

/-- The features of a minimal set distinguish the method. -/
theorem distinguishes_of_minimal (h : index.Represents window members)
    (he : index.method? position = some entry) {found : Found}
    (hm : (Search.ofFeatures index entry.features).Minimal position found.1) :
    (MinimalSet.ofIndices entry.id entry.features found).Distinguishes index entry.id position
      entry.features := by
  have hr : ∀ i ∈ found.1, i < entry.features.length := by
    intro i hi
    rw [← Search.size_ofFeatures index entry.features]
    exact hm.inRange i hi
  have hneeded : ∀ place < (found.1.filterMap (entry.features[·]?)).length, ∃ other carrier,
      other ≠ position ∧ index.method? other = some carrier ∧
        ∀ f ∈ (found.1.filterMap (entry.features[·]?)).eraseIdx place, f ∈ carrier.features := by
    intro place hp
    have hl : place < found.1.length := by
      have := List.length_filterMap_le (entry.features[·]?) found.1
      exact Nat.lt_of_lt_of_le hp this
    have hn := hm.needed found.1[place] (List.getElem_mem hl)
    have hd : found.1.Nodup := hm.ascending.imp Nat.ne_of_lt
    have he' : ∀ i ∈ found.1.eraseIdx place, i < entry.features.length :=
      fun i hi ↦ hr i (List.mem_of_mem_eraseIdx hi)
    have hf : ∀ f ∈ (found.1.eraseIdx place).filterMap (entry.features[·]?),
        f ∈ entry.features := by
      intro f hf
      obtain ⟨i, _, hg⟩ := List.mem_filterMap.mp hf
      exact List.mem_of_getElem? hg
    rw [hd.erase_getElem place hl, h.isolates_iff he he', h.ambiguity_eq_singleton_iff he hf,
      filterMap_eraseIdx hr] at hn
    simp only [not_forall] at hn
    obtain ⟨other, carrier, ho, hc, hne⟩ := hn
    exact ⟨other, carrier, hne, ho, hc⟩
  refine ⟨rfl, hm.ascending, hr, map_some_filterMap hr, (h.isolates_iff he hr).mp hm.isolates,
    hneeded, ?_⟩
  intro place hp hone
  obtain ⟨other, carrier, hne, ho, hc⟩ := hneeded place hp
  refine ⟨other, h.mem_ambiguity.mpr ⟨fun hnil ↦ hone ?_, carrier, ho, hc⟩, hne⟩
  have hlength := congrArg List.length hnil
  rw [List.length_eraseIdx_of_lt hp, List.length_nil] at hlength
  exact Nat.le_antisymm (Nat.sub_eq_zero_iff_le.mp hlength) (Nat.zero_lt_of_lt hp)

/-- What solving gives for an indexed method, by what the ambiguity of all its features is. -/
theorem solve_eq (h : index.Represents window members) (he : index.method? position = some entry)
    (config : SolverConfig) (cancelled : Bool) :
    index.solve config entry.id cancelled =
      if index.ambiguity entry.features = #[position] then
        if index.size = 1 then .ok [MinimalSet.ofIndices entry.id entry.features ([], .exhaustive)]
        else if cancelled then .error .cancelled
        else .ok ((config.finds (Search.ofFeatures index entry.features)).map
          (MinimalSet.ofIndices entry.id entry.features))
      else .error (.noDistinguishingSet entry.id
        (index.ids ((index.ambiguity entry.features).toList.filter (· != position)))) := by
  have hp := h.position?_id he
  have hf : index.features? entry.id = some entry.features :=
    h.features?_eq_some_iff.mpr ⟨position, entry, hp, he, rfl, rfl⟩
  have hm : position ∈ index.ambiguity entry.features :=
    h.mem_ambiguity.mpr ⟨fun hnil ↦ absurd hnil (h.features_ne_nil he), entry, he, fun _ hf ↦ hf⟩
  have hs : (index.ambiguity entry.features).size > 1 ↔
      index.ambiguity entry.features ≠ #[position] := by
    have hpos := Array.size_pos_of_mem hm
    constructor
    · intro hs ha
      rw [ha] at hs
      exact Nat.lt_irrefl 1 hs
    · intro hne
      by_cases h1 : (index.ambiguity entry.features).size = 1
      · obtain ⟨only, ho⟩ := Array.size_eq_one_iff.mp h1
        rw [ho, Array.mem_singleton] at hm
        rw [ho, hm] at hne
        exact absurd rfl hne
      · omega
  unfold solve
  rw [hp, hf]
  simp only [Search.ambiguity_all, hs]
  by_cases ha : index.ambiguity entry.features = #[position]
  · simp [ha]
  · simp [ha]

/-- All features together isolate a method if no other one carries them all. -/
theorem isolates_all (h : index.Represents window members)
    (he : index.method? position = some entry)
    (ha : index.ambiguity entry.features = #[position]) :
    (Search.ofFeatures index entry.features).Isolates position
      (Search.ofFeatures index entry.features).all := by
  have hr : ∀ i ∈ (Search.ofFeatures index entry.features).all, i < entry.features.length := by
    intro i hi
    rw [← Search.size_ofFeatures index entry.features]
    exact Search.mem_all_iff.mp hi
  rw [h.isolates_iff he hr, Search.all, Search.size_ofFeatures, Search.filterMap_range]
  exact ha

/-- Whatever is solved is found by the search: minimal sets, each once, in order and no more than
asked for. -/
theorem exists_founds_of_solve (h : index.Represents window members)
    (he : index.method? position = some entry) {config : SolverConfig} {cancelled : Bool}
    {sets : List MinimalSet} (hs : index.solve config entry.id cancelled = .ok sets) :
    ∃ founds : List Found, founds.map (MinimalSet.ofIndices entry.id entry.features) = sets ∧
      (∀ found ∈ founds, (Search.ofFeatures index entry.features).Minimal position found.1) ∧
      founds.Pairwise (fun a b ↦ a.1.length < b.1.length ∨
        a.1.length = b.1.length ∧ a.1 < b.1) ∧
      1 ≤ founds.length ∧ founds.length ≤ max 1 config.maxSets := by
  have hh := h.holds_ofFeatures he
  rw [h.solve_eq he] at hs
  split at hs
  · next ha =>
    split at hs
    · next h1 =>
      cases hs
      refine ⟨[([], .exhaustive)], rfl, ?_, by simp, by simp, by simp⟩
      rw [List.forall_mem_singleton]
      exact ⟨List.Pairwise.nil, nofun, (Search.isolates_nil_iff hh).mpr h1, nofun⟩
    · next h1 =>
      split at hs
      · cases hs
      · cases hs
        have hc : 1 < (Search.ofFeatures index entry.features).corpusSize := by
          have := h.size_pos
          change 1 < index.size
          omega
        obtain ⟨hpos, hle⟩ := config.length_finds (Search.ofFeatures index entry.features)
        refine ⟨_, rfl, ?_, config.pairwise_finds _, hpos, ?_⟩
        · exact fun _ hm ↦ config.minimal_of_mem_finds hh (h.isolates_all he ha) hc hm
        · rw [Nat.max_comm]
          exact hle
  · cases hs

/-- A solution is never empty. -/
theorem ne_nil_of_solve (h : index.Represents window members)
    (he : index.method? position = some entry) {config : SolverConfig} {cancelled : Bool}
    {sets : List MinimalSet} (hs : index.solve config entry.id cancelled = .ok sets) :
    sets ≠ [] := by
  obtain ⟨founds, rfl, _, _, hpos, _⟩ := h.exists_founds_of_solve he hs
  apply List.ne_nil_of_length_pos
  rw [List.length_map]
  exact hpos

/-- A search fails only if it is abandoned or another method carries all features. -/
theorem eq_of_solve_eq_error (h : index.Represents window members)
    (he : index.method? position = some entry) {config : SolverConfig} {cancelled : Bool}
    {error : FingerprintError} (hs : index.solve config entry.id cancelled = .error error) :
    error = .cancelled ∨ ∃ twins, error = .noDistinguishingSet entry.id twins := by
  rw [h.solve_eq he] at hs
  split at hs
  · split at hs
    · cases hs
    · split at hs
      · cases hs
        exact .inl rfl
      · cases hs
  · cases hs
    exact .inr ⟨_, rfl⟩

/-- A search that is not abandoned succeeds if no other method carries all features. -/
theorem exists_solve (h : index.Represents window members)
    (he : index.method? position = some entry)
    (ha : index.ambiguity entry.features = #[position]) (config : SolverConfig) :
    ∃ sets, index.solve config entry.id false = .ok sets := by
  rw [h.solve_eq he, if_pos ha]
  split
  · exact ⟨_, rfl⟩
  · exact ⟨_, rfl⟩

/-- Every set that is solved for distinguishes the method. -/
theorem distinguishes_of_solve (h : index.Represents window members)
    (he : index.method? position = some entry) {config : SolverConfig} {cancelled : Bool}
    {sets : List MinimalSet} (hs : index.solve config entry.id cancelled = .ok sets) :
    ∀ set ∈ sets, set.Distinguishes index entry.id position entry.features := by
  obtain ⟨founds, rfl, hm, _⟩ := h.exists_founds_of_solve he hs
  rw [List.forall_mem_map]
  exact fun found hf ↦ h.distinguishes_of_minimal he (hm found hf)

end Represents

/-! ### Solutions -/

/-- Distinguishing sets of a target, each once, in order and no more than asked for. -/
structure Solution (index : Index) (config : SolverConfig) (target : MethodId) (position : Nat)
    (features : List Feature) (sets : List MinimalSet) : Prop where
  position_eq : index.position? target = some position
  features_eq : index.features? target = some features
  distinguishes : ∀ set ∈ sets, set.Distinguishes index target position features
  nodup : (sets.map (·.indices)).Nodup
  ordered : sets.Pairwise fun a b ↦ a.indices.length < b.indices.length ∨
    a.indices.length = b.indices.length ∧ a.indices < b.indices
  nonempty : 1 ≤ sets.length
  length_le : sets.length ≤ max 1 config.maxSets

/-- Whatever the members, the target and the configuration: solving gives solutions only. -/
theorem solution_of_solve {corpusId : String} {window : Nat} {members : List Member}
    {index : Index} (hb : build corpusId window members = .ok index) {config : SolverConfig}
    {target : MethodId} {cancelled : Bool} {sets : List MinimalSet}
    (hs : index.solve config target cancelled = .ok sets) :
    ∃ position features, index.Solution config target position features sets := by
  have h := represents_of_build hb
  cases hp : index.position? target with
  | none =>
    rw [solve_of_position?_eq_none hp] at hs
    cases hs
  | some position =>
    obtain ⟨entry, he, rfl⟩ := h.position?_iff.mp hp
    have hf : index.features? entry.id = some entry.features :=
      h.features?_eq_some_iff.mpr ⟨position, entry, hp, he, rfl, rfl⟩
    have hd := h.distinguishes_of_solve he hs
    obtain ⟨founds, rfl, _, ho, hpos, hle⟩ := h.exists_founds_of_solve he hs
    refine ⟨position, entry.features, hp, hf, hd, ?_, List.pairwise_map.mpr ho, ?_, ?_⟩
    · rw [List.map_map]
      apply List.pairwise_map.mpr (ho.imp _)
      rintro a b (hlt | ⟨_, hlt⟩) heq
      · exact Nat.ne_of_lt hlt (congrArg List.length heq)
      · rw [show a.1 = b.1 from heq] at hlt
        exact List.lt_irrefl _ hlt
    · rw [List.length_map]
      exact hpos
    · rw [List.length_map]
      exact hle

/-- Two methods that differ in one access flag have solutions. -/
theorem solution_of_solve_flags :
    let publicMethod : Method := { id := ⟨"LA;->a()V"⟩, accessFlags := 0x1, returnType := "V" }
    let privateMethod : Method := { id := ⟨"LA;->b()V"⟩, accessFlags := 0x2, returnType := "V" }
    ∃ index sets, build "flags" 0 [.method publicMethod, .method privateMethod] = .ok index ∧
      index.solve {} publicMethod.id false = .ok sets ∧
      ∃ position features, index.Solution {} publicMethod.id position features sets := by
  intro publicMethod privateMethod
  obtain ⟨index, hb⟩ : ∃ index,
      build "flags" 0 [.method publicMethod, .method privateMethod] = .ok index :=
    exists_build "flags" 0 (by decide) (by decide) (by decide) (by decide)
  have h := represents_of_build hb
  have he : index.method? 0 = some (.ofMethod 0 publicMethod) := h.method?_eq 0
  have ha : index.ambiguity (IndexedMethod.ofMethod 0 publicMethod).features = #[0] := by
    rw [h.ambiguity_eq (by nofun)]
    decide
  obtain ⟨sets, hs⟩ := h.exists_solve he ha {}
  exact ⟨index, sets, hb, hs, solution_of_solve hb hs⟩

end Index

end MethodPrint
