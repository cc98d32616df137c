import MethodPrint.Proofs.Index.Query
import MethodPrint.Proofs.Search.Strategy
import MethodPrint.Search.Solve

/-!
# Solutions

The features of an indexed method give a search that its position is the target of, and a set of
features isolates the target exactly if the ambiguity of the features is the target alone. What
the strategies find is put in order without repetitions, so that every set of a solution is
minimal and comes once.
-/

namespace MethodPrint

/-! ### Gathering finds -/

namespace Found

private theorem mem_firsts_iff {seen : Std.HashSet (List Nat)} {finds : List Found}
    {set : List Nat} :
    set ∈ (firsts seen finds).map Prod.fst ↔ set ∈ finds.map Prod.fst ∧ set ∉ seen := by
  induction finds generalizing seen with
  | nil => simp [firsts]
  | cons found finds ih =>
    rw [firsts, List.map_cons, List.mem_cons]
    split
    · next hs =>
      rw [ih]
      constructor
      · exact fun ⟨hm, hn⟩ ↦ ⟨.inr hm, hn⟩
      · rintro ⟨rfl | hm, hn⟩
        · exact absurd (Std.HashSet.mem_iff_contains.mpr hs) hn
        · exact ⟨hm, hn⟩
    · next hs =>
      have hs : found.1 ∉ seen := fun hm ↦ hs (Std.HashSet.mem_iff_contains.mp hm)
      rw [List.map_cons, List.mem_cons, ih, Std.HashSet.mem_insert, beq_iff_eq, not_or]
      by_cases he : set = found.1
      · simp [he, hs]
      · simp [he, Ne.symm he]

/-- The finds that are kept are some of the finds, in their order. -/
theorem firsts_sublist (seen : Std.HashSet (List Nat)) (finds : List Found) :
    (firsts seen finds).Sublist finds := by
  induction finds generalizing seen with
  | nil => exact List.Sublist.refl _
  | cons found finds ih =>
    rw [firsts]
    split
    · exact (ih seen).cons found
    · exact (ih _).cons_cons found

/-- No set is kept twice. -/
theorem nodup_firsts (seen : Std.HashSet (List Nat)) (finds : List Found) :
    ((firsts seen finds).map Prod.fst).Nodup := by
  induction finds generalizing seen with
  | nil => exact List.nodup_nil
  | cons found finds ih =>
    rw [firsts]
    split
    · exact ih seen
    · rw [List.map_cons, List.nodup_cons, mem_firsts_iff]
      refine ⟨fun ⟨_, hn⟩ ↦ hn ?_, ih _⟩
      rw [Std.HashSet.mem_insert]
      exact .inl (beq_self_eq_true _)

/-- Every set that is found is kept. -/
theorem mem_firsts_empty_iff {finds : List Found} {set : List Nat} :
    set ∈ (firsts ∅ finds).map Prod.fst ↔ set ∈ finds.map Prod.fst := by
  rw [mem_firsts_iff]
  simp

/-- The order of sets: by length, then lexicographic. -/
def Before (a b : List Nat) : Prop := a.length < b.length ∨ a.length = b.length ∧ a < b

private theorem precedes_iff {a b : Found} : precedes a b = true ↔ Before a.1 b.1 ∨ a.1 = b.1 := by
  unfold precedes Before
  simp only [Bool.or_eq_true, Bool.and_eq_true, decide_eq_true_eq, beq_iff_eq,
    Bool.not_eq_true', decide_eq_false_iff_not]
  constructor
  · rintro (hl | ⟨he, hn⟩)
    · exact .inl (.inl hl)
    · rcases List.le_iff_lt_or_eq.mp hn with hlt | heq
      · exact .inl (.inr ⟨he, hlt⟩)
      · exact .inr heq
  · rintro ((hl | ⟨he, hlt⟩) | heq)
    · exact .inl hl
    · exact .inr ⟨he, List.lt_asymm hlt⟩
    · rw [heq]
      exact .inr ⟨rfl, List.lt_irrefl _⟩

private theorem Before.trans {a b c : List Nat} (hab : Before a b) (hbc : Before b c) :
    Before a c := by
  rcases hab with hab | ⟨hab, hlt⟩
  · rcases hbc with hbc | ⟨hbc, _⟩
    · exact .inl (Nat.lt_trans hab hbc)
    · exact .inl (hbc ▸ hab)
  · rcases hbc with hbc | ⟨hbc, hlt'⟩
    · exact .inl (hab ▸ hbc)
    · exact .inr ⟨hab.trans hbc, List.lt_trans hlt hlt'⟩

private theorem precedes_trans (a b c : Found) (hab : precedes a b = true)
    (hbc : precedes b c = true) : precedes a c = true := by
  rw [precedes_iff] at *
  rcases hab with hab | hab
  · rcases hbc with hbc | hbc
    · exact .inl (hab.trans hbc)
    · exact .inl (hbc ▸ hab)
  · rw [hab]
    exact hbc

private theorem precedes_total (a b : Found) : (precedes a b || precedes b a) = true := by
  rw [Bool.or_eq_true, precedes_iff, precedes_iff, Before, Before]
  rcases Nat.lt_trichotomy a.1.length b.1.length with hl | hl | hl
  · exact .inl (.inl (.inl hl))
  · by_cases hlt : a.1 < b.1
    · exact .inl (.inl (.inr ⟨hl, hlt⟩))
    · rcases List.le_iff_lt_or_eq.mp hlt with hgt | heq
      · exact .inr (.inl (.inr ⟨hl.symm, hgt⟩))
      · exact .inr (.inr heq)
  · exact .inr (.inl (.inl hl))

/-- Finds without repetitions are sorted strictly. -/
theorem pairwise_before_mergeSort {finds : List Found} (hn : (finds.map Prod.fst).Nodup) :
    (finds.mergeSort precedes).Pairwise fun a b ↦ Before a.1 b.1 := by
  have hp := List.mergeSort_perm finds precedes
  have hd : (finds.mergeSort precedes).Pairwise fun a b ↦ a.1 ≠ b.1 :=
    List.pairwise_map.mp ((hp.map Prod.fst).nodup_iff.mpr hn)
  have hs := List.pairwise_mergeSort precedes_trans precedes_total finds
  apply (List.pairwise_and_iff.mpr ⟨hs, hd⟩).imp
  intro a b hab
  exact (precedes_iff.mp hab.1).resolve_right hab.2

end Found

namespace SolverConfig

variable {search : Search} {target : Nat}

/-- At least one set is asked for. -/
theorem limit_pos (config : SolverConfig) : 0 < config.limit := by
  rw [limit]
  omega

private theorem mem_finds (config : SolverConfig) {found : Found}
    (hm : found ∈ config.finds search) :
    found ∈ config.exhaustiveFinds search ∨
      ∃ strategy, found = (search.minimal strategy, strategy) := by
  have hs := (List.mergeSort_perm _ _).mem_iff.mp (List.mem_of_mem_take hm)
  have hf := (Found.firsts_sublist _ _).subset hs
  rcases List.mem_append.mp hf with he | hg
  · exact .inl he
  · obtain ⟨strategy, _, rfl⟩ := List.mem_map.mp hg
    exact .inr ⟨strategy, rfl⟩

/-- Every set that is found is minimal. -/
theorem minimal_of_mem_finds (config : SolverConfig) (h : search.Holds target)
    (hi : search.Isolates target search.all) (hc : 1 < search.corpusSize) {found : Found}
    (hm : found ∈ config.finds search) : search.Minimal target found.1 := by
  rcases config.mem_finds hm with he | ⟨strategy, rfl⟩
  · rw [exhaustiveFinds] at he
    split at he
    · obtain ⟨set, hset, rfl⟩ := List.mem_map.mp he
      exact Search.minimal_of_mem_exhaustive h hc config.limit_pos hset
    · cases he
  · exact Search.minimal_minimal h hi strategy

/-- Finds are in order. -/
theorem pairwise_finds (config : SolverConfig) (search : Search) :
    (config.finds search).Pairwise fun a b ↦ Found.Before a.1 b.1 :=
  (Found.pairwise_before_mergeSort (Found.nodup_firsts _ _)).sublist (List.take_sublist _ _)

/-- There are finds, but no more than asked for. -/
theorem length_finds (config : SolverConfig) (search : Search) :
    0 < (config.finds search).length ∧ (config.finds search).length ≤ config.limit := by
  have hm : search.minimal .rarityAscending ∈
      (Found.firsts ∅ (config.exhaustiveFinds search ++
        Strategy.greedy.map fun strategy ↦ (search.minimal strategy, strategy))).map Prod.fst := by
    rw [Found.mem_firsts_empty_iff]
    simp [Strategy.greedy]
  have hp := List.length_pos_of_mem hm
  rw [List.length_map] at hp
  rw [finds, List.length_take, List.length_mergeSort]
  have := config.limit_pos
  omega

end SolverConfig

/-! ### Searching an index -/

namespace Search

/-- The lists of a search are the posting lists of the features. -/
theorem list_ofFeatures (index : Index) (features : List Feature) (i : Nat) :
    (ofFeatures index features).list i = (features[i]?.map index.lookup).getD #[] := by
  simp [ofFeatures, list]

/-- A search has as many lists as features. -/
theorem size_ofFeatures (index : Index) (features : List Feature) :
    (ofFeatures index features).size = features.length := by
  simp [ofFeatures, size]

/-- A set has the ambiguity of its features. -/
theorem ambiguity_ofFeatures (index : Index) {features : List Feature} {set : List Nat}
    (hs : ∀ i ∈ set, i < features.length) :
    (ofFeatures index features).ambiguity set =
      index.ambiguity (set.filterMap (features[·]?)) := by
  have hl : set.map (ofFeatures index features).list =
      (set.filterMap (features[·]?)).map index.lookup := by
    induction set with
    | nil => rfl
    | cons i set ih =>
      obtain ⟨hi, hs⟩ := List.forall_mem_cons.mp hs
      have hg := List.getElem?_eq_getElem hi
      rw [List.map_cons, List.filterMap_cons_some hg, List.map_cons, ih hs, list_ofFeatures, hg]
      rfl
  rw [ambiguity, hl]
  rfl

/-- All features at their positions are all features. -/
theorem filterMap_range (features : List Feature) :
    (List.range features.length).filterMap (features[·]?) = features := by
  induction features using List.reverseRecOn with
  | nil => rfl
  | append_singleton features feature ih =>
    rw [List.length_append, List.length_singleton, List.range_succ, List.filterMap_append]
    congr 1
    · conv_rhs => rw [← ih]
      apply List.filterMap_congr
      intro i hi
      exact List.getElem?_append_left (List.mem_range.mp hi)
    · simp

/-- All lists together have the ambiguity of all features. -/
theorem ambiguity_all (index : Index) (features : List Feature) :
    (ofFeatures index features).ambiguity (ofFeatures index features).all =
      index.ambiguity features := by
  rw [all, size_ofFeatures, ambiguity_ofFeatures index fun i hi ↦ List.mem_range.mp hi,
    filterMap_range]

end Search

namespace Index.Represents

variable {window : Nat} {members : List Member} {index : Index} {position : Nat}
  {entry : IndexedMethod}

/-- The search for an indexed method has its position as target. -/
theorem holds_ofFeatures (h : index.Represents window members)
    (he : index.method? position = some entry) :
    (Search.ofFeatures index entry.features).Holds position where
  ascending i := by
    rw [Search.list_ofFeatures]
    cases entry.features[i]? with
    | none => exact List.Pairwise.nil
    | some feature => exact h.ascending_lookup feature
  below i := by
    rw [Search.list_ofFeatures]
    cases entry.features[i]? with
    | none => exact fun _ hp ↦ absurd hp (Array.not_mem_empty _)
    | some feature =>
      intro other ho
      obtain ⟨_, hm, _⟩ := h.mem_lookup.mp ho
      exact lt_size_of_method? hm
  target_mem i hi := by
    rw [Search.size_ofFeatures] at hi
    rw [Search.list_ofFeatures, List.getElem?_eq_getElem hi]
    exact h.mem_lookup.mpr ⟨entry, he, List.getElem_mem hi⟩
  target_lt := lt_size_of_method? he
  corpusSize_le := h.size_le

/-- A set isolates an indexed method exactly if the ambiguity of its features is this method. -/
theorem isolates_iff (h : index.Represents window members)
    (he : index.method? position = some entry) {set : List Nat}
    (hs : ∀ i ∈ set, i < entry.features.length) :
    (Search.ofFeatures index entry.features).Isolates position set ↔
      index.ambiguity (set.filterMap (entry.features[·]?)) = #[position] := by
  have hs' : ∀ i ∈ set, i < (Search.ofFeatures index entry.features).size := by
    rwa [Search.size_ofFeatures]
  rw [Search.isolates_iff_ambiguity (h.holds_ofFeatures he) hs',
    Search.ambiguity_ofFeatures index hs]

end Index.Represents

end MethodPrint
