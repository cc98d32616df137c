import MethodPrint.Proofs.Search.Solve

/-!
# What a search depends on

A search looks at its posting lists only to count: how many methods carry a feature, and how many
carry every feature of a set. Searches in which all sets have the same counts visit the features in
the same order, choose and drop the same ones, and find the same sets, whatever the positions of
the methods are.
-/

namespace MethodPrint

namespace Search

/-- The number of methods that carry all features of a set. -/
def count (search : Search) (set : List Nat) : Nat := (search.ambiguity set).size

/-! ### Ambiguities within a search -/

variable {search : Search} {target : Nat}

/-- A posting list has the methods that carry its feature alone. -/
theorem ambiguity_singleton (search : Search) (i : Nat) :
    search.ambiguity [i] = search.list i := by
  simp [ambiguity, Posting.intersectAll?, Posting.shortestFirst]

/-- One more feature narrows an ambiguity to the methods that carry this feature as well. -/
theorem intersect_ambiguity (h : search.Holds target) {set : List Nat} (hne : set ≠ []) (i : Nat) :
    (search.ambiguity set).intersect (search.list i) = search.ambiguity (set ++ [i]) := by
  have ha := h.ascending_ambiguity set
  have hnil : set ++ [i] ≠ [] := List.append_ne_nil_of_left_ne_nil hne _
  apply (ha.intersect (h.ascending i)).ext (h.ascending_ambiguity _)
  intro position
  rw [Posting.mem_intersect ha (h.ascending i), h.mem_ambiguity, h.mem_ambiguity,
    and_iff_right fun he ↦ absurd he hne, and_iff_right fun he ↦ absurd he hnil,
    List.forall_mem_append, List.forall_mem_singleton, and_assoc]

/-- A set isolates the target exactly if one method carries all of it. -/
theorem isolates_iff_count (h : search.Holds target) {set : List Nat}
    (hs : ∀ i ∈ set, i < search.size) : search.Isolates target set ↔ search.count set = 1 := by
  rw [isolates_iff_ambiguity h hs, count, size_ambiguity_eq_one_iff h hs]

/-! ### Searches with the same counts -/

/-- In two searches every set has as many methods that carry all of it. -/
structure SameCounts (a b : Search) : Prop where
  size_eq : a.size = b.size
  count_eq : ∀ set, (∀ i ∈ set, i < a.size) → a.count set = b.count set

variable {a b : Search} {first second : Nat}

/-- Posting lists are equally long. -/
theorem SameCounts.size_list (hc : a.SameCounts b) (i : Nat) :
    (a.list i).size = (b.list i).size := by
  by_cases hi : i < a.size
  · rw [← ambiguity_singleton, ← ambiguity_singleton]
    exact hc.count_eq [i] (List.forall_mem_singleton.mpr hi)
  · have hb : ¬i < b.size := hc.size_eq ▸ hi
    rw [list, list, Array.getElem?_eq_none (Nat.not_lt.mp hi),
      Array.getElem?_eq_none (Nat.not_lt.mp hb)]

/-- Features are visited in the same order. -/
theorem SameCounts.ranking_eq (hc : a.SameCounts b) (strategy : Strategy) :
    a.ranking strategy = b.ranking strategy := by
  have hall : a.all = b.all := congrArg List.range hc.size_eq
  cases strategy with
  | rarityAscending | rarityDescending => simp only [ranking, hall, hc.size_list]
  | extractionOrder | exhaustive => exact hall

private theorem SameCounts.greedyFrom_eq (hc : a.SameCounts b) (ha : a.Holds first)
    (hb : b.Holds second) {order : List Nat} (ho : ∀ i ∈ order, i < a.size) {chosen : List Nat}
    (hne : chosen ≠ []) (hs : ∀ i ∈ chosen, i < a.size) :
    a.greedyFrom (some (a.ambiguity chosen)) order =
      b.greedyFrom (some (b.ambiguity chosen)) order := by
  induction order generalizing chosen with
  | nil => rfl
  | cons i order ih =>
    obtain ⟨hi, ho⟩ := List.forall_mem_cons.mp ho
    have hn : ∀ j ∈ chosen ++ [i], j < a.size :=
      List.forall_mem_append.mpr ⟨hs, List.forall_mem_singleton.mpr hi⟩
    have hnext : (a.ambiguity (chosen ++ [i])).size = (b.ambiguity (chosen ++ [i])).size :=
      hc.count_eq _ hn
    have hrunning : (a.ambiguity chosen).size = (b.ambiguity chosen).size := hc.count_eq _ hs
    have hmore : chosen ++ [i] ≠ [] := List.append_ne_nil_of_left_ne_nil hne _
    rw [greedyFrom, greedyFrom, intersect_ambiguity ha hne, intersect_ambiguity hb hne]
    simp only [hnext, hrunning, ih ho hne hs, ih ho hmore hn]

/-- Greedy choice takes the same features. -/
theorem SameCounts.greedy_eq (hc : a.SameCounts b) (ha : a.Holds first) (hb : b.Holds second)
    {order : List Nat} (ho : ∀ i ∈ order, i < a.size) : a.greedy order = b.greedy order := by
  cases order with
  | nil => rfl
  | cons i order =>
    obtain ⟨hi, ho⟩ := List.forall_mem_cons.mp ho
    have hrest := hc.greedyFrom_eq ha hb ho (List.cons_ne_nil i [])
      (List.forall_mem_singleton.mpr hi)
    rw [ambiguity_singleton, ambiguity_singleton] at hrest
    rw [greedy, greedy, greedyFrom, greedyFrom]
    simp only [hc.size_list, hrest]

/-- The same sets pass the quick test. -/
theorem SameCounts.isUnique_eq (hc : a.SameCounts b) (ha : a.Holds first) (hb : b.Holds second)
    {set : List Nat} (hs : ∀ i ∈ set, i < a.size) : a.isUnique set = b.isUnique set := by
  have hs' : ∀ i ∈ set, i < b.size := hc.size_eq ▸ hs
  rw [Bool.eq_iff_iff, isUnique_iff ha hs, isUnique_iff hb hs', isolates_iff_count ha hs,
    isolates_iff_count hb hs', hc.count_eq set hs]

/-- A pass drops the same features. -/
theorem SameCounts.dropPass_eq (hc : a.SameCounts b) (ha : a.Holds first) (hb : b.Holds second)
    (places : Nat) {chosen : List Nat} (hs : ∀ i ∈ chosen, i < a.size) :
    a.dropPass places chosen = b.dropPass places chosen := by
  induction places generalizing chosen with
  | zero => rfl
  | succ place ih =>
    have he : ∀ i ∈ chosen.eraseIdx place, i < a.size :=
      fun i hm ↦ hs i (List.mem_of_mem_eraseIdx hm)
    rw [dropPass, dropPass, hc.isUnique_eq ha hb he]
    split
    · exact ih he
    · exact ih hs

/-- Passes drop the same features. -/
theorem SameCounts.dropAll_eq (hc : a.SameCounts b) (ha : a.Holds first) (hb : b.Holds second)
    {chosen : List Nat} (hs : ∀ i ∈ chosen, i < a.size) :
    a.dropAll chosen = b.dropAll chosen := by
  rw [Search.dropAll_eq ha hs, Search.dropAll_eq hb (hc.size_eq ▸ hs),
    hc.dropPass_eq ha hb chosen.length hs]

/-- A greedy strategy finds the same set. -/
theorem SameCounts.minimal_eq (hc : a.SameCounts b) (ha : a.Holds first) (hb : b.Holds second)
    (strategy : Strategy) : a.minimal strategy = b.minimal strategy := by
  have ho : ∀ i ∈ a.ranking strategy, i < a.size :=
    fun i hm ↦ mem_all_iff.mp ((a.ranking_perm strategy).mem_iff.mp hm)
  have hs : ∀ i ∈ a.greedy (a.ranking strategy), i < a.size :=
    fun i hm ↦ ho i ((a.greedyFrom_sublist none _).subset hm)
  rw [minimal, minimal, shrink, shrink, ← hc.ranking_eq, ← hc.greedy_eq ha hb ho,
    hc.dropAll_eq ha hb hs]

/-- The same sets of a size pass the quick test. -/
theorem SameCounts.uniqueSets_eq (hc : a.SameCounts b) (ha : a.Holds first) (hb : b.Holds second)
    {size : Nat} (hs : size ≤ a.size) : a.uniqueSets size = b.uniqueSets size := by
  rw [uniqueSets, uniqueSets, ← hc.size_eq]
  apply List.filter_congr
  intro set hm
  exact hc.isUnique_eq ha hb ((Combination.mem_stepsFrom_first_iff hs).mp hm).1.below

/-- Trying all sets finds the same ones. -/
theorem SameCounts.exhaustive_eq (hc : a.SameCounts b) (ha : a.Holds first) (hb : b.Holds second)
    (maxSize limit : Nat) : a.exhaustive maxSize limit = b.exhaustive maxSize limit := by
  rw [exhaustive, exhaustive, ← hc.size_eq, ← List.head?_filterMap, ← List.head?_filterMap]
  refine congrArg (fun found ↦ (List.head? found).getD []) (List.filterMap_congr ?_)
  intro size hm
  have hs : size ≤ a.size := by
    rw [List.mem_range'_1] at hm
    omega
  have hu := hc.uniqueSets_eq ha hb hs
  rw [uniqueSets, uniqueSets, ← hc.size_eq] at hu
  rw [Combination.collect_eq, Combination.collect_eq, hu]

/-- All strategies together find the same sets. -/
theorem SameCounts.finds_eq (hc : a.SameCounts b) (ha : a.Holds first) (hb : b.Holds second)
    (config : SolverConfig) : config.finds a = config.finds b := by
  simp only [SolverConfig.finds, SolverConfig.exhaustiveFinds, hc.size_eq,
    hc.exhaustive_eq ha hb, hc.minimal_eq ha hb]

end Search

end MethodPrint
