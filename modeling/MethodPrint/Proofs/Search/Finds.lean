import MethodPrint.Proofs.Search.Solve

/-!
# Which finds come first

Once all features together isolate the target, some size is the smallest that has isolating sets.
Trying all sets gives those of this size in lexicographic order, if it gets that far, and these
stand before whatever else the greedy strategies find.
-/

namespace MethodPrint

namespace Search

/-- The smallest size that has sets which pass the quick test. -/
structure IsSmallest (search : Search) (size : Nat) : Prop where
  pos : 0 < size
  le_size : size ≤ search.size
  smaller : ∀ less, 0 < less → less < size → search.uniqueSets less = []
  exists_set : search.uniqueSets size ≠ []

variable {search : Search} {target size : Nat}

/-- There is a smallest size if all features together isolate the target from some other method. -/
theorem exists_isSmallest (h : search.Holds target) (hi : search.Isolates target search.all)
    (hc : 1 < search.corpusSize) : ∃ size, search.IsSmallest size := by
  have hpos : 0 < search.size := by
    apply Nat.pos_of_ne_zero
    intro h0
    have hnil : search.all = [] := by rw [all, h0, List.range_zero]
    rw [hnil, isolates_nil_iff h] at hi
    omega
  have hall : search.uniqueSets search.size ≠ [] := by
    apply List.ne_nil_of_mem (a := search.all)
    rw [mem_uniqueSets_iff h (Nat.le_refl _)]
    exact ⟨Combination.isCombination_first (Nat.le_refl _), List.length_range, hi⟩
  let P (size : Nat) : Prop := 0 < size ∧ search.uniqueSets size ≠ []
  have hP : ∃ size, P size := ⟨search.size, hpos, hall⟩
  classical
  refine ⟨Nat.find hP, (Nat.find_spec hP).1, Nat.find_min' hP ⟨hpos, hall⟩, ?_,
    (Nat.find_spec hP).2⟩
  intro less h0 hlt
  by_contra hne
  exact Nat.find_min hP hlt ⟨h0, hne⟩

/-- No isolating set is smaller than the smallest size, and those of this size pass the test. -/
theorem IsSmallest.le_length (hs : search.IsSmallest size) (h : search.Holds target)
    (hc : 1 < search.corpusSize) {set : List Nat}
    (hset : Combination.IsCombination search.size set) (hi : search.Isolates target set) :
    size ≤ set.length ∧ (set.length = size → set ∈ search.uniqueSets size) := by
  constructor
  · by_contra hlt
    rw [Nat.not_le] at hlt
    have hm : set ∈ search.uniqueSets set.length :=
      (mem_uniqueSets_iff h (Nat.le_trans (Nat.le_of_lt hlt) hs.le_size)).mpr ⟨hset, rfl, hi⟩
    have h0 : 0 < set.length := by
      apply List.length_pos_of_ne_nil
      rintro rfl
      rw [isolates_nil_iff h] at hi
      omega
    rw [hs.smaller _ h0 hlt] at hm
    cases hm
  · exact fun hl ↦ (mem_uniqueSets_iff h hs.le_size).mpr ⟨hset, hl, hi⟩

/-- Trying all sets gives those of the smallest size, if it gets that far. -/
theorem IsSmallest.exhaustive_eq (hs : search.IsSmallest size) (maxSize : Nat) {limit : Nat}
    (hl : 0 < limit) :
    search.exhaustive maxSize limit =
      if size ≤ maxSize then (search.uniqueSets size).take limit else [] := by
  rcases search.exhaustive_cases maxSize hl with ⟨he, hn⟩ | ⟨first, h0, hle, hn, hne, he⟩
  · rw [he]
    split
    · next hm => exact absurd (hn size hs.pos (Nat.le_min.mpr ⟨hm, hs.le_size⟩)) hs.exists_set
    · rfl
  · obtain rfl : first = size := by
      rcases Nat.lt_trichotomy first size with hlt | heq | hgt
      · exact absurd (hs.smaller first h0 hlt) hne
      · exact heq
      · exact absurd (hn size hs.pos hgt) hs.exists_set
    rw [he, if_pos (Nat.le_min.mp hle).1]

end Search

namespace Found

private theorem exists_firsts_append (seen : Std.HashSet (List Nat)) {finds : List Found}
    (hn : (finds.map Prod.fst).Nodup) (hs : ∀ found ∈ finds, found.1 ∉ seen) (more : List Found) :
    ∃ rest, firsts seen (finds ++ more) = finds ++ rest ∧ rest.Sublist more := by
  induction finds generalizing seen with
  | nil => exact ⟨_, rfl, firsts_sublist seen more⟩
  | cons found finds ih =>
    obtain ⟨hf, hs⟩ := List.forall_mem_cons.mp hs
    rw [List.map_cons, List.nodup_cons] at hn
    have hc : ¬seen.contains found.1 := fun hm ↦ hf (Std.HashSet.mem_iff_contains.mpr hm)
    have hi : ∀ other ∈ finds, other.1 ∉ seen.insert found.1 := by
      intro other ho hm
      rcases Std.HashSet.mem_insert.mp hm with heq | hm
      · exact hn.1 (eq_of_beq heq ▸ List.mem_map_of_mem ho)
      · exact hs other ho hm
    obtain ⟨rest, hr, hsub⟩ := ih _ hn.2 hi
    exact ⟨rest, by rw [List.cons_append, firsts, if_neg hc, hr, List.cons_append], hsub⟩

private theorem Before.asymm {a b : List Nat} (h : Before a b) : ¬Before b a := by
  rcases h with hl | ⟨he, hlt⟩
  · rintro (hl' | ⟨he, _⟩)
    · omega
    · omega
  · rintro (hl | ⟨_, hgt⟩)
    · omega
    · exact List.lt_asymm hlt hgt

private theorem mergeSort_append {finds rest : List Found}
    (hn : ((finds ++ rest).map Prod.fst).Nodup)
    (ho : finds.Pairwise fun a b ↦ Before a.1 b.1)
    (hb : ∀ a ∈ finds, ∀ b ∈ rest, Before a.1 b.1) :
    (finds ++ rest).mergeSort precedes = finds ++ rest.mergeSort precedes := by
  have hp := List.mergeSort_perm rest precedes
  have hr : (rest.mergeSort precedes).Pairwise fun a b ↦ Before a.1 b.1 := by
    apply pairwise_before_mergeSort
    rw [List.map_append] at hn
    exact (List.nodup_append.mp hn).2.1
  have hsorted : (finds ++ rest.mergeSort precedes).Pairwise fun a b ↦ Before a.1 b.1 :=
    List.pairwise_append.mpr ⟨ho, hr, fun a ha b hm ↦ hb a ha b (hp.mem_iff.mp hm)⟩
  have hperm := (List.mergeSort_perm (finds ++ rest) precedes).trans (hp.symm.append_left finds)
  exact hperm.eq_of_pairwise (fun a b _ _ hab hba ↦ absurd hba hab.asymm)
    (pairwise_before_mergeSort hn) hsorted

end Found

namespace SolverConfig

variable {search : Search} {target size : Nat}

/-- The exhaustive finds are the sets of the smallest size, if these are looked for. -/
theorem exhaustiveFinds_eq (hs : search.IsSmallest size) (config : SolverConfig) :
    config.exhaustiveFinds search =
      if search.size ≤ config.exhaustiveLimit ∧ size ≤ config.exhaustiveMaxSize then
        ((search.uniqueSets size).take config.limit).map (·, .exhaustive)
      else [] := by
  rw [exhaustiveFinds, hs.exhaustive_eq _ config.limit_pos]
  by_cases hl : search.size ≤ config.exhaustiveLimit
  · by_cases hm : size ≤ config.exhaustiveMaxSize
    · simp [hl, hm]
    · simp [hm]
  · simp [hl]

private theorem pairwise_exhaustiveFinds (hs : search.IsSmallest size) (h : search.Holds target)
    (config : SolverConfig) :
    (config.exhaustiveFinds search).Pairwise fun a b ↦ Found.Before a.1 b.1 := by
  rw [exhaustiveFinds_eq hs]
  split
  · rw [List.pairwise_map]
    have ho := (Search.pairwise_uniqueSets hs.le_size).sublist
      (List.take_sublist config.limit _)
    have hl : ∀ set ∈ (search.uniqueSets size).take config.limit, set.length = size :=
      fun set hm ↦ ((Search.mem_uniqueSets_iff h hs.le_size).mp (List.mem_of_mem_take hm)).2.1
    exact ho.imp_of_mem fun ha hb hlt ↦ .inr ⟨(hl _ ha).trans (hl _ hb).symm, hlt⟩
  · exact List.Pairwise.nil

private theorem before_of_not_mem (hs : search.IsSmallest size) (h : search.Holds target)
    (hc : 1 < search.corpusSize) (config : SolverConfig) {set : List Nat}
    (hset : search.Minimal target set)
    (hn : set ∉ (config.exhaustiveFinds search).map Prod.fst) {found : Found}
    (hf : found ∈ config.exhaustiveFinds search) : Found.Before found.1 set := by
  obtain ⟨hle, heq⟩ := hs.le_length h hc ⟨hset.ascending, hset.inRange⟩ hset.isolates
  rw [exhaustiveFinds_eq hs] at hn hf
  split at hf
  · next hif =>
    rw [if_pos hif, List.map_map] at hn
    obtain ⟨first, hfirst, rfl⟩ := List.mem_map.mp hf
    have hl := ((Search.mem_uniqueSets_iff h hs.le_size).mp (List.mem_of_mem_take hfirst)).2.1
    rcases Nat.lt_or_eq_of_le hle with hlt | hlen
    · exact .inl (hl ▸ hlt)
    · -- a set of this size that is not among the first ones is among the others
      refine .inr ⟨hl.trans hlen, ?_⟩
      have hm := heq hlen.symm
      have ho := Search.pairwise_uniqueSets hs.le_size
      rw [← List.take_append_drop config.limit (search.uniqueSets size)] at hm ho
      refine (List.pairwise_append.mp ho).2.2 first hfirst set ?_
      refine (List.mem_append.mp hm).resolve_left fun ht ↦ hn ?_
      exact List.mem_map.mpr ⟨set, ht, rfl⟩
  · cases hf

private theorem exists_firsts_exhaustiveFinds (hs : search.IsSmallest size)
    (h : search.Holds target) (config : SolverConfig) :
    ∃ rest, Found.firsts ∅ (config.exhaustiveFinds search ++
        Strategy.greedy.map fun strategy ↦ (search.minimal strategy, strategy)) =
          config.exhaustiveFinds search ++ rest ∧
      ∀ found ∈ rest, found.1 ∉ (config.exhaustiveFinds search).map Prod.fst ∧
        ∃ strategy ∈ Strategy.greedy, found = (search.minimal strategy, strategy) := by
  have hn : ((config.exhaustiveFinds search).map Prod.fst).Nodup :=
    List.pairwise_map.mpr ((pairwise_exhaustiveFinds hs h config).imp
      fun hb heq ↦ (heq ▸ hb).asymm (heq ▸ hb))
  obtain ⟨rest, hr, hsub⟩ := Found.exists_firsts_append ∅ hn (by simp)
    (Strategy.greedy.map fun strategy ↦ (search.minimal strategy, strategy))
  refine ⟨rest, hr, fun found hf ↦ ⟨fun hm ↦ ?_, ?_⟩⟩
  · have hnodup := Found.nodup_firsts ∅ (config.exhaustiveFinds search ++
      Strategy.greedy.map fun strategy ↦ (search.minimal strategy, strategy))
    rw [hr, List.map_append, List.nodup_append] at hnodup
    exact hnodup.2.2 _ hm _ (List.mem_map_of_mem hf) rfl
  · obtain ⟨strategy, hstrategy, heq⟩ := List.mem_map.mp (hsub.subset hf)
    exact ⟨strategy, hstrategy, heq.symm⟩

private theorem length_exhaustiveFinds_le (hs : search.IsSmallest size) (config : SolverConfig) :
    (config.exhaustiveFinds search).length ≤ config.limit := by
  rw [exhaustiveFinds_eq hs]
  split
  · rw [List.length_map]
    exact List.length_take_le _ _
  · exact Nat.zero_le _

/-- The exhaustive finds come first, and then other sets that the greedy strategies find, as long
as there is room. -/
theorem exists_finds_eq_append (h : search.Holds target)
    (hi : search.Isolates target search.all) (hc : 1 < search.corpusSize)
    (config : SolverConfig) :
    ∃ rest, config.finds search = config.exhaustiveFinds search ++ rest ∧
      (config.exhaustiveFinds search).length + rest.length ≤ config.limit ∧
      ∀ found ∈ rest, found.1 ∉ (config.exhaustiveFinds search).map Prod.fst ∧
        ∃ strategy ∈ Strategy.greedy, found = (search.minimal strategy, strategy) := by
  obtain ⟨size, hs⟩ := Search.exists_isSmallest h hi hc
  obtain ⟨rest, hr, hrest⟩ := exists_firsts_exhaustiveFinds hs h config
  have ho := pairwise_exhaustiveFinds hs h config
  have hlen := length_exhaustiveFinds_le hs config
  have hb : ∀ a ∈ config.exhaustiveFinds search, ∀ b ∈ rest, Found.Before a.1 b.1 := by
    intro a ha b hb
    obtain ⟨hnot, strategy, _, rfl⟩ := hrest b hb
    exact before_of_not_mem hs h hc config (Search.minimal_minimal h hi strategy) hnot ha
  have hnodup := hr ▸ Found.nodup_firsts ∅ (config.exhaustiveFinds search ++
    Strategy.greedy.map fun strategy ↦ (search.minimal strategy, strategy))
  refine ⟨(rest.mergeSort Found.precedes).take
    (config.limit - (config.exhaustiveFinds search).length), ?_, ?_, ?_⟩
  · rw [finds, hr, Found.mergeSort_append hnodup ho hb, List.take_append,
      List.take_of_length_le hlen]
  · rw [List.length_take]
    omega
  · intro found hf
    exact hrest found ((List.mergeSort_perm _ _).mem_iff.mp (List.mem_of_mem_take hf))

end SolverConfig

end MethodPrint
