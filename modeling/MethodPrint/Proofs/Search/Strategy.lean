import MethodPrint.Proofs.Search.Combination
import MethodPrint.Proofs.Search.Isolation

/-!
# What the strategies find

Each ranking has all features of the target, so that the greedy strategies find a minimal set
whenever all features together isolate the target. Trying all sets finds sets of the smallest size
that has any, and these are minimal because no smaller set isolates the target.
-/

namespace MethodPrint.Search

variable {search : Search} {target : Nat}

/-! ### Greedy strategies -/

/-- A ranking has all features of the target. -/
theorem ranking_perm (search : Search) (strategy : Strategy) :
    (search.ranking strategy).Perm search.all := by
  cases strategy with
  | exhaustive => exact List.Perm.refl _
  | rarityAscending => exact List.mergeSort_perm _ _
  | extractionOrder => exact List.Perm.refl _
  | rarityDescending => exact List.mergeSort_perm _ _

/-- All features are the positions below their number. -/
theorem mem_all_iff {i : Nat} : i ∈ search.all ↔ i < search.size := List.mem_range

/-- A greedy strategy finds a minimal set if there is any. -/
theorem minimal_minimal (h : search.Holds target) (hi : search.Isolates target search.all)
    (strategy : Strategy) : search.Minimal target (search.minimal strategy) := by
  have hp := search.ranking_perm strategy
  have hsub := search.greedyFrom_sublist none (search.ranking strategy)
  have hr : ∀ i ∈ search.ranking strategy, i < search.size :=
    fun i hm ↦ mem_all_iff.mp (hp.mem_iff.mp hm)
  have hn : (search.ranking strategy).Nodup := hp.nodup_iff.mpr List.nodup_range
  apply minimal_shrink h (hn.sublist hsub) fun i hm ↦ hr i (hsub.subset hm)
  exact isolates_greedy h hr ((isolates_congr fun i ↦ hp.mem_iff).mpr hi)

/-! ### Trying all sets -/

/-- The sets of a size that pass the quick test, in lexicographic order. -/
def uniqueSets (search : Search) (size : Nat) : List (List Nat) :=
  (Combination.stepsFrom search.size (Combination.first size)).filter search.isUnique

/-- The sets of a size that pass the quick test are those that isolate the target. -/
theorem mem_uniqueSets_iff (h : search.Holds target) {size : Nat} (hs : size ≤ search.size)
    {set : List Nat} :
    set ∈ search.uniqueSets size ↔ Combination.IsCombination search.size set ∧
      set.length = size ∧ search.Isolates target set := by
  rw [uniqueSets, List.mem_filter, Combination.mem_stepsFrom_first_iff hs, and_assoc]
  constructor
  · rintro ⟨hc, hl, hu⟩
    exact ⟨hc, hl, (isUnique_iff h hc.below).mp hu⟩
  · rintro ⟨hc, hl, hu⟩
    exact ⟨hc, hl, (isUnique_iff h hc.below).mpr hu⟩

/-- Sets of one size come in lexicographic order. -/
theorem pairwise_uniqueSets {size : Nat} (hs : size ≤ search.size) :
    (search.uniqueSets size).Pairwise (· < ·) :=
  (Combination.pairwise_stepsFrom (Combination.isCombination_first hs)).filter _

private theorem findSome?_range'_cases {α : Type} (find : Nat → Option α) (bound : Nat) :
    ((List.range' 1 bound).findSome? find = none ∧
      ∀ size, 0 < size → size ≤ bound → find size = none) ∨
    ∃ size found, 0 < size ∧ size ≤ bound ∧ (∀ less, 0 < less → less < size → find less = none) ∧
      find size = some found ∧ (List.range' 1 bound).findSome? find = some found := by
  cases hf : (List.range' 1 bound).findSome? find with
  | none =>
    rw [List.findSome?_eq_none_iff] at hf
    exact .inl ⟨rfl, fun size h0 hb ↦ hf size (List.mem_range'_1.mpr (by omega))⟩
  | some found =>
    obtain ⟨before, size, after, hr, hs, hb⟩ := List.findSome?_eq_some_iff.mp hf
    have hsize : size ∈ List.range' 1 bound := by simp [hr]
    rw [List.mem_range'_1] at hsize
    refine .inr ⟨size, found, hsize.1, by omega, fun less h0 hlt ↦ ?_, hs, rfl⟩
    -- numbers below the one found come before it
    have hm : less ∈ List.range' 1 bound := by
      rw [List.mem_range'_1]
      omega
    have hp := hr ▸ List.pairwise_lt_range' (s := 1) (n := bound)
    rw [hr, List.mem_append, List.mem_cons] at hm
    rcases hm with hm | rfl | hm
    · exact hb less hm
    · omega
    · have := (List.pairwise_cons.mp (List.pairwise_append.mp hp).2.1).1 less hm
      omega

/-- Trying all sets ends with the first size that has any, or finds none up to the largest size. -/
theorem exhaustive_cases (search : Search) (maxSize : Nat) {limit : Nat} (hl : 0 < limit) :
    (search.exhaustive maxSize limit = [] ∧
      ∀ size, 0 < size → size ≤ min maxSize search.size → search.uniqueSets size = []) ∨
    ∃ size, 0 < size ∧ size ≤ min maxSize search.size ∧
      (∀ smaller, 0 < smaller → smaller < size → search.uniqueSets smaller = []) ∧
      search.uniqueSets size ≠ [] ∧
      search.exhaustive maxSize limit = (search.uniqueSets size).take limit := by
  obtain ⟨find, hfind, he⟩ : ∃ find : Nat → Option (List (List Nat)),
      (∀ size found, find size = some found ↔
        found ≠ [] ∧ found = (search.uniqueSets size).take limit) ∧
      search.exhaustive maxSize limit =
        ((List.range' 1 (min maxSize search.size)).findSome? find).getD [] := by
    refine ⟨_, fun size found ↦ ?_, rfl⟩
    rw [Combination.collect_eq, ← uniqueSets]
    split
    · next hn =>
      rw [hn]
      exact ⟨nofun, fun ⟨hne, heq⟩ ↦ absurd heq hne⟩
    · next hn =>
      rw [Option.some.injEq, eq_comm]
      exact ⟨fun heq ↦ ⟨heq ▸ hn, heq⟩, And.right⟩
  have hnone (size : Nat) : find size = none ↔ search.uniqueSets size = [] := by
    rw [Option.eq_none_iff_forall_ne_some]
    constructor
    · intro hn
      by_contra hne
      refine hn _ ((hfind size _).mpr ⟨?_, rfl⟩)
      rw [ne_eq, List.take_eq_nil_iff, not_or]
      exact ⟨Nat.ne_of_gt hl, hne⟩
    · intro hu found hf
      obtain ⟨hne, heq⟩ := (hfind size found).mp hf
      rw [hu, List.take_nil] at heq
      exact hne heq
  rw [he]
  simp only [← hnone]
  rcases findSome?_range'_cases find (min maxSize search.size) with
    ⟨hf, hn⟩ | ⟨size, found, h0, hb, hless, hs, hf⟩
  · exact .inl ⟨by rw [hf]; rfl, hn⟩
  · refine .inr ⟨size, h0, hb, hless, ?_, ?_⟩
    · rw [ne_eq, ← hnone, hs]
      nofun
    · rw [hf, Option.getD_some]
      exact ((hfind size found).mp hs).2

/-- Trying all sets finds minimal sets only. -/
theorem minimal_of_mem_exhaustive (h : search.Holds target) (hc : 1 < search.corpusSize)
    {maxSize limit : Nat} (hl : 0 < limit) {set : List Nat}
    (hm : set ∈ search.exhaustive maxSize limit) : search.Minimal target set := by
  rcases search.exhaustive_cases maxSize hl with ⟨he, _⟩ | ⟨size, h0, hs, hless, _, he⟩
  · rw [he] at hm
    cases hm
  · rw [he] at hm
    obtain ⟨hset, hlen, hiso⟩ :=
      (mem_uniqueSets_iff h (by omega)).mp (List.mem_of_mem_take hm)
    refine ⟨hset.ascending, hset.below, hiso, fun i hi hu ↦ ?_⟩
    have herase : (set.erase i).length = size - 1 := by rw [List.length_erase_of_mem hi, hlen]
    rcases Nat.eq_or_lt_of_le h0 with h1 | h1
    · obtain hn : set.erase i = [] := List.length_eq_zero_iff.mp (by omega)
      rw [hn, isolates_nil_iff h] at hu
      omega
    · have hsub := List.erase_sublist (a := i) (l := set)
      have hcomb : Combination.IsCombination search.size (set.erase i) :=
        ⟨hset.ascending.sublist hsub, fun j hj ↦ hset.below j (hsub.subset hj)⟩
      have hin : set.erase i ∈ search.uniqueSets (size - 1) :=
        (mem_uniqueSets_iff h (by omega)).mpr ⟨hcomb, herase, hu⟩
      rw [hless (size - 1) (by omega) (by omega)] at hin
      cases hin

end MethodPrint.Search
