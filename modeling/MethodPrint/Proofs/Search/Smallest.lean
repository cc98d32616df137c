import Mathlib.Order.Bounds.Defs
import MethodPrint.Proofs.Search.Distinguishing
import MethodPrint.Proofs.Search.Finds

/-!
# The smallest distinguishing sets

Where the feature list and the smallest distinguishing sets are short enough to be searched
exhaustively, a solution starts with these sets in lexicographic order, and all others in it are
larger. Where they are not, nothing in it comes from an exhaustive search.
-/

namespace MethodPrint

namespace SolverConfig

variable {search : Search} {target size : Nat}

/-- After the sets of the smallest size, as many as asked for, only larger ones are found. -/
theorem exists_finds_eq_uniqueSets (hs : search.IsSmallest size) (h : search.Holds target)
    (hi : search.Isolates target search.all) (hc : 1 < search.corpusSize)
    {config : SolverConfig} (hl : search.size ≤ config.exhaustiveLimit)
    (hm : size ≤ config.exhaustiveMaxSize) :
    ∃ rest, config.finds search =
        ((search.uniqueSets size).take config.limit).map (·, .exhaustive) ++ rest ∧
      ∀ found ∈ rest, size < found.1.length := by
  obtain ⟨rest, hf, hlen, hrest⟩ := config.exists_finds_eq_append h hi hc
  rw [config.exhaustiveFinds_eq hs, if_pos ⟨hl, hm⟩] at hf hlen hrest
  refine ⟨rest, hf, fun found hfound ↦ ?_⟩
  obtain ⟨hnot, strategy, _, rfl⟩ := hrest found hfound
  have hset := Search.minimal_minimal h hi strategy
  obtain ⟨hle, heq⟩ := hs.le_length h hc ⟨hset.ascending, hset.inRange⟩ hset.isolates
  apply Nat.lt_of_le_of_ne hle
  intro hsize
  -- there is room for more than the exhaustive finds, so that none of this size is left out
  have hroom : (search.uniqueSets size).length ≤ config.limit := by
    have := List.length_pos_of_mem hfound
    rw [List.length_map, List.length_take] at hlen
    omega
  apply hnot
  rw [List.map_map, List.take_of_length_le hroom]
  exact List.mem_map.mpr ⟨_, heq hsize.symm, rfl⟩

/-- Where the search is not exhaustive up to the smallest size, only greedy strategies find sets. -/
theorem strategy_ne_exhaustive (hs : search.IsSmallest size) (h : search.Holds target)
    (hi : search.Isolates target search.all) (hc : 1 < search.corpusSize) {config : SolverConfig}
    (hn : ¬(search.size ≤ config.exhaustiveLimit ∧ size ≤ config.exhaustiveMaxSize))
    {found : Found} (hm : found ∈ config.finds search) : found.2 ≠ .exhaustive := by
  obtain ⟨rest, hf, _, hrest⟩ := config.exists_finds_eq_append h hi hc
  rw [hf, config.exhaustiveFinds_eq hs, if_neg hn, List.nil_append] at hm
  obtain ⟨_, strategy, hgreedy, rfl⟩ := hrest found hm
  rintro rfl
  exact absurd hgreedy (by decide)

end SolverConfig

namespace Index

/-- Ascending positions in the features of the method at a position, the features at which belong
to no other method. -/
structure SinglesOut (index : Index) (position : Nat) (features : List Feature)
    (set : List Nat) : Prop where
  isCombination : Combination.IsCombination features.length set
  ambiguity_eq : index.ambiguity (set.filterMap (features[·]?)) = #[position]

/-- The sets of the smallest size that any set has which singles a method out: all that do, in
lexicographic order. -/
structure Smallest (index : Index) (position : Nat) (features : List Feature) (size : Nat)
    (sets : List (List Nat)) : Prop where
  isLeast : IsLeast {length | ∃ set, index.SinglesOut position features set ∧ set.length = length}
    size
  mem_iff : ∀ set, set ∈ sets ↔ index.SinglesOut position features set ∧ set.length = size
  ordered : sets.Pairwise (· < ·)

namespace Represents

variable {window : Nat} {members : List Member} {index : Index} {position size : Nat}
  {entry : IndexedMethod}

/-- A set singles a method out exactly if it is a combination that isolates it. -/
theorem singlesOut_iff (h : index.Represents window members)
    (he : index.method? position = some entry) {set : List Nat} :
    index.SinglesOut position entry.features set ↔
      Combination.IsCombination (Search.ofFeatures index entry.features).size set ∧
        (Search.ofFeatures index entry.features).Isolates position set := by
  rw [Search.size_ofFeatures]
  constructor
  · exact fun ⟨hc, ha⟩ ↦ ⟨hc, (h.isolates_iff he hc.below).mpr ha⟩
  · exact fun ⟨hc, hi⟩ ↦ ⟨hc, (h.isolates_iff he hc.below).mp hi⟩

/-- The sets of the smallest size that pass the quick test are the smallest that single a method
out. -/
theorem smallest_uniqueSets (h : index.Represents window members)
    (he : index.method? position = some entry) (h1 : 1 < index.size)
    (hs : (Search.ofFeatures index entry.features).IsSmallest size) :
    index.Smallest position entry.features size
      ((Search.ofFeatures index entry.features).uniqueSets size) := by
  have hh := h.holds_ofFeatures he
  have hmem : ∀ set, set ∈ (Search.ofFeatures index entry.features).uniqueSets size ↔
      index.SinglesOut position entry.features set ∧ set.length = size := by
    intro set
    rw [Search.mem_uniqueSets_iff hh hs.le_size, h.singlesOut_iff he, and_assoc,
      and_comm (b := set.length = size)]
  refine ⟨⟨?_, ?_⟩, hmem, Search.pairwise_uniqueSets hs.le_size⟩
  · obtain ⟨set, hm⟩ := List.exists_mem_of_ne_nil _ hs.exists_set
    exact ⟨set, (hmem set).mp hm⟩
  · rintro _ ⟨set, hset, rfl⟩
    obtain ⟨hc, hi⟩ := (h.singlesOut_iff he).mp hset
    exact (hs.le_length hh h1 hc hi).1

end Represents

/-- Whatever the members and the configuration: a method that is not alone and can be told apart has
smallest distinguishing sets, and its solution starts with these if an exhaustive search gets as
far as their size. Otherwise nothing in the solution comes from an exhaustive search. -/
theorem smallest_of_solve {corpusId : String} {window : Nat} {members : List Member}
    {index : Index} (hb : build corpusId window members = .ok index) (h1 : 1 < index.size)
    {position : Nat} {entry : IndexedMethod} (he : index.method? position = some entry)
    (ha : index.ambiguity entry.features = #[position]) (config : SolverConfig) :
    ∃ size smallest sets, index.Smallest position entry.features size smallest ∧
      index.solve config entry.id false = .ok sets ∧
      (entry.features.length ≤ config.exhaustiveLimit → size ≤ config.exhaustiveMaxSize →
        ∃ later, sets = (smallest.take (max 1 config.maxSets)).map
            (fun set ↦ MinimalSet.ofIndices entry.id entry.features (set, .exhaustive)) ++ later ∧
          ∀ set ∈ later, size < set.indices.length) ∧
      (config.exhaustiveMaxSize < size ∨ config.exhaustiveLimit < entry.features.length →
        ∀ set ∈ sets, set.strategy ≠ .exhaustive) := by
  have h := represents_of_build hb
  have hh := h.holds_ofFeatures he
  have hi := h.isolates_all he ha
  obtain ⟨size, hs⟩ := Search.exists_isSmallest hh hi h1
  have hsize := Search.size_ofFeatures index entry.features
  refine ⟨size, _, (config.finds (Search.ofFeatures index entry.features)).map
    (MinimalSet.ofIndices entry.id entry.features), h.smallest_uniqueSets he h1 hs, ?_, ?_, ?_⟩
  · rw [h.solve_eq he, if_pos ha, if_neg (Nat.ne_of_gt h1), if_neg Bool.false_ne_true]
  · intro hl hm
    rw [← hsize] at hl
    obtain ⟨rest, hf, hrest⟩ := SolverConfig.exists_finds_eq_uniqueSets hs hh hi h1 hl hm
    refine ⟨rest.map (MinimalSet.ofIndices entry.id entry.features), ?_, ?_⟩
    · rw [hf, List.map_append, List.map_map, SolverConfig.limit, Nat.max_comm]
      rfl
    · exact List.forall_mem_map.mpr hrest
  · intro hn
    rw [List.forall_mem_map]
    intro found hm
    refine SolverConfig.strategy_ne_exhaustive hs hh hi h1 ?_ hm
    rw [hsize]
    omega

/-- The solution for a public method without result, between a private method and one with a
result: neither the access flag nor the return type suffices to tell it apart. -/
theorem smallest_of_solve_pair :
    let target : Method := { id := ⟨"LA;->a()V"⟩, accessFlags := 0x1, returnType := "V" }
    let hidden : Method := { id := ⟨"LA;->b()V"⟩, accessFlags := 0x2, returnType := "V" }
    let number : Method := { id := ⟨"LA;->c()I"⟩, accessFlags := 0x1, returnType := "I" }
    let entry := IndexedMethod.ofMethod 0 target
    let config : SolverConfig := {}
    ∃ index size smallest sets,
      build "pair" 0 [.method hidden, .method target, .method number] = .ok index ∧
      1 < index.size ∧ index.method? 1 = some entry ∧ index.ambiguity entry.features = #[1] ∧
      index.Smallest 1 entry.features size smallest ∧
      index.solve config entry.id false = .ok sets ∧
      (entry.features.length ≤ config.exhaustiveLimit → size ≤ config.exhaustiveMaxSize →
        ∃ later, sets = (smallest.take (max 1 config.maxSets)).map
            (fun set ↦ MinimalSet.ofIndices entry.id entry.features (set, .exhaustive)) ++ later ∧
          ∀ set ∈ later, size < set.indices.length) ∧
      (config.exhaustiveMaxSize < size ∨ config.exhaustiveLimit < entry.features.length →
        ∀ set ∈ sets, set.strategy ≠ .exhaustive) := by
  intro target hidden number entry config
  let members : List Member := [.method hidden, .method target, .method number]
  obtain ⟨index, hb⟩ : ∃ index, build "pair" 0 members = .ok index :=
    exists_build "pair" 0 (by decide) (by decide) (by decide) (by decide)
  have h := represents_of_build hb
  have he : index.method? 1 = some entry := h.method?_eq 1
  have h1 : 1 < index.size := lt_size_of_method? he
  have ha : index.ambiguity entry.features = #[1] := by
    rw [h.ambiguity_eq (by nofun)]
    decide
  obtain ⟨size, smallest, sets, hsolve⟩ := smallest_of_solve hb h1 he ha config
  exact ⟨index, size, smallest, sets, hb, h1, he, ha, hsolve⟩

end Index

end MethodPrint
