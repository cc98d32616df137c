import Mathlib.Data.List.Nodup
import MethodPrint.Proofs.Posting.Intersection
import MethodPrint.Search.Basic

/-!
# Sets that isolate a target

A set of features isolates the target of a search if no other method carries all of them. The
quick test of a search decides this, greedy choice keeps it, and one pass of dropping leaves a set
of which nothing more can be dropped.
-/

namespace MethodPrint.Search

/-- The posting lists of a search are ascending and all hold the target, which is a position of the
corpus like every other entry. There are no more methods than positions. -/
structure Holds (search : Search) (target : Nat) : Prop where
  ascending : ∀ i, (search.list i).Ascending
  below : ∀ i, ∀ position ∈ search.list i, position < search.corpusSize
  target_mem : ∀ i < search.size, target ∈ search.list i
  target_lt : target < search.corpusSize
  corpusSize_le : search.corpusSize ≤ UInt32.size

/-- No method but the target carries all features of a set. -/
def Isolates (search : Search) (target : Nat) (set : List Nat) : Prop :=
  ∀ position < search.corpusSize, (∀ i ∈ set, position ∈ search.list i) → position = target

variable {search : Search} {target : Nat}

/-- More features isolate no less. -/
theorem Isolates.mono {set more : List Nat} (h : search.Isolates target set)
    (hs : ∀ i ∈ set, i ∈ more) : search.Isolates target more :=
  fun position hp hm ↦ h position hp fun i hi ↦ hm i (hs i hi)

/-- The order of the features does not matter. -/
theorem isolates_congr {a b : List Nat} (h : ∀ i, i ∈ a ↔ i ∈ b) :
    search.Isolates target a ↔ search.Isolates target b :=
  ⟨fun ha ↦ ha.mono fun i ↦ (h i).mp, fun hb ↦ hb.mono fun i ↦ (h i).mpr⟩

/-- No features isolate the target only of a corpus without other methods. -/
theorem isolates_nil_iff (h : search.Holds target) :
    search.Isolates target [] ↔ search.corpusSize = 1 := by
  have ht := h.target_lt
  constructor
  · intro hi
    have h0 := hi 0 (by omega) nofun
    by_cases h1 : 1 < search.corpusSize
    · have := hi 1 h1 nofun
      omega
    · omega
  · intro hs position hp _
    omega

/-! ### Testing -/

/-- An ascending list that holds the target has no other entry exactly if it has one entry. -/
theorem size_eq_one_iff {list : Posting} (ha : list.Ascending) (ht : target ∈ list) :
    list.size = 1 ↔ ∀ position ∈ list, position = target := by
  rw [← ha.eq_singleton_iff ht]
  constructor
  · intro hs
    obtain ⟨entry, rfl⟩ := Array.size_eq_one_iff.mp hs
    rw [Array.mem_singleton.mp ht]
  · rintro rfl
    rfl

/-- The early end leaves nothing out: what holds the target alone is not narrowed by a list that
holds the target. -/
theorem narrowToOne_eq_narrow {running list : Posting} (ha : running.Ascending)
    (hl : list.Ascending) (ht : target ∈ running) (htl : target ∈ list) :
    narrowToOne running list = running.narrow list := by
  have hp := Array.size_pos_of_mem ht
  have hn : ¬running.isEmpty = true := by
    rw [Array.isEmpty_iff_size_eq_zero]
    omega
  rw [narrowToOne, Posting.narrow, if_neg hn]
  split
  · next hs =>
    have hu := (size_eq_one_iff ha ht).mp (by omega)
    apply ha.ext (ha.intersect hl)
    intro position
    rw [Posting.mem_intersect ha hl, iff_self_and]
    exact fun hm ↦ hu position hm ▸ htl
  · rfl

/-- Narrowing by list after list ends with the common entries, whether or not it ends early. -/
theorem foldl_narrowToOne {rest : List Posting} (hr : ∀ list ∈ rest, list.Ascending)
    (hm : ∀ list ∈ rest, target ∈ list) {running : Posting} (ha : running.Ascending)
    (ht : target ∈ running) :
    rest.foldl narrowToOne running = rest.foldl Posting.narrow running := by
  induction rest generalizing running with
  | nil => rfl
  | cons list rest ih =>
    obtain ⟨hl, hr⟩ := List.forall_mem_cons.mp hr
    obtain ⟨htl, hm⟩ := List.forall_mem_cons.mp hm
    rw [List.foldl_cons, List.foldl_cons, narrowToOne_eq_narrow ha hl ht htl]
    exact ih hr hm (ha.narrow hl) ((Posting.mem_narrow ha hl).mpr ⟨ht, htl⟩)

/-- The running intersection at the end of a quick test. The empty set is tested without one. -/
def running? (search : Search) (set : List Nat) : Option Posting :=
  match Posting.shortestFirst (set.map search.list) with
  | [] => none
  | first :: rest => some (rest.foldl narrowToOne first)

/-- The quick test asks whether the running intersection has one entry in the end. -/
theorem isUnique_eq (search : Search) (set : List Nat) :
    search.isUnique set = match search.running? set with
      | none => search.corpusSize == 1
      | some running => running.size == 1 := by
  unfold isUnique running?
  cases Posting.shortestFirst (set.map search.list) <;> rfl

/-- The running intersection ends as the intersection of all lists. -/
theorem running?_eq (h : search.Holds target) {set : List Nat} (hs : ∀ i ∈ set, i < search.size) :
    search.running? set = Posting.intersectAll? (set.map search.list) := by
  have hl : ∀ list ∈ Posting.shortestFirst (set.map search.list),
      list.Ascending ∧ target ∈ list := by
    intro list hl
    obtain ⟨i, hi, rfl⟩ := List.mem_map.mp (Posting.mem_shortestFirst.mp hl)
    exact ⟨h.ascending i, h.target_mem i (hs i hi)⟩
  unfold running? Posting.intersectAll?
  cases hf : Posting.shortestFirst (set.map search.list) with
  | nil => rfl
  | cons first rest =>
    rw [hf, List.forall_mem_cons] at hl
    obtain ⟨⟨ha, ht⟩, hr⟩ := hl
    have hra : ∀ list ∈ rest, list.Ascending := fun list hm ↦ (hr list hm).1
    have hrt : ∀ list ∈ rest, target ∈ list := fun list hm ↦ (hr list hm).2
    simp only [foldl_narrowToOne hra hrt ha ht]

/-! ### Ambiguities -/

private theorem ambiguity_spec (h : search.Holds target) (set : List Nat) :
    (search.ambiguity set).Ascending ∧ ∀ position, position ∈ search.ambiguity set ↔
      (set = [] → search.corpusSize < UInt32.size) ∧
        position < search.corpusSize ∧ ∀ i ∈ set, position ∈ search.list i := by
  obtain ⟨ha, hm⟩ := Posting.getD_intersectAll?
    (List.forall_mem_map.mpr fun i (_ : i ∈ set) ↦ h.ascending i)
    (List.forall_mem_map.mpr fun i (_ : i ∈ set) ↦ h.below i) h.corpusSize_le
  refine ⟨ha, fun position ↦ ?_⟩
  rw [ambiguity, hm, List.map_eq_nil_iff, List.forall_mem_map]

/-- The ambiguity of a set is ascending. -/
theorem Holds.ascending_ambiguity (h : search.Holds target) (set : List Nat) :
    (search.ambiguity set).Ascending := (ambiguity_spec h set).1

/-- The ambiguity of a set has the positions of the methods that carry all of its features, except
that the empty set has none if there are as many methods as positions. -/
theorem Holds.mem_ambiguity (h : search.Holds target) {set : List Nat} {position : Nat} :
    position ∈ search.ambiguity set ↔ (set = [] → search.corpusSize < UInt32.size) ∧
      position < search.corpusSize ∧ ∀ i ∈ set, position ∈ search.list i :=
  (ambiguity_spec h set).2 position

/-- The target is in the ambiguity of its features. -/
theorem Holds.target_mem_ambiguity (h : search.Holds target) {set : List Nat}
    (hc : set = [] → search.corpusSize < UInt32.size) (hs : ∀ i ∈ set, i < search.size) :
    target ∈ search.ambiguity set :=
  h.mem_ambiguity.mpr ⟨hc, h.target_lt, fun i hi ↦ h.target_mem i (hs i hi)⟩

/-- With as many methods as there are positions, the empty set is said to have no methods. -/
theorem ambiguity_nil_of_corpusSize_eq (hc : search.corpusSize = UInt32.size) :
    search.ambiguity [] = #[] := by
  have hnone : Posting.intersectAll? (([] : List Nat).map search.list) = none :=
    Posting.intersectAll?_eq_none_iff.mpr rfl
  rw [ambiguity, hnone, Option.getD_none, Posting.all_of_eq hc]

private theorem Holds.ambiguity_cases (h : search.Holds target) (set : List Nat) :
    (set = [] → search.corpusSize < UInt32.size) ∨
      set = [] ∧ search.corpusSize = UInt32.size ∧ search.ambiguity set = #[] := by
  by_cases hc : set = [] → search.corpusSize < UInt32.size
  · exact .inl hc
  · simp only [Classical.not_imp, Nat.not_lt] at hc
    obtain ⟨rfl, hc⟩ := hc
    have hc := Nat.le_antisymm h.corpusSize_le hc
    exact .inr ⟨rfl, hc, ambiguity_nil_of_corpusSize_eq hc⟩

/-- One method carries all of a set exactly if that is the target. -/
theorem size_ambiguity_eq_one_iff (h : search.Holds target) {set : List Nat}
    (hs : ∀ i ∈ set, i < search.size) :
    (search.ambiguity set).size = 1 ↔ search.ambiguity set = #[target] := by
  rcases h.ambiguity_cases set with hc | ⟨_, _, hempty⟩
  · have ha := h.ascending_ambiguity set
    have ht := h.target_mem_ambiguity hc hs
    rw [size_eq_one_iff ha ht, ha.eq_singleton_iff ht]
  · simp [hempty]

/-- A set isolates the target exactly if its ambiguity is the target alone. -/
theorem isolates_iff_ambiguity (h : search.Holds target) {set : List Nat}
    (hs : ∀ i ∈ set, i < search.size) :
    search.Isolates target set ↔ search.ambiguity set = #[target] := by
  rcases h.ambiguity_cases set with hc | ⟨rfl, hc, hempty⟩
  · rw [(h.ascending_ambiguity set).eq_singleton_iff (h.target_mem_ambiguity hc hs)]
    simp only [h.mem_ambiguity, and_iff_right hc, and_imp]
    rfl
  · rw [isolates_nil_iff h, hempty, hc]
    exact ⟨nofun, nofun⟩

/-- The quick test decides whether the ambiguity of a set is the target alone. -/
theorem isUnique_iff_ambiguity (h : search.Holds target) {set : List Nat}
    (hs : ∀ i ∈ set, i < search.size) :
    search.isUnique set = true ↔ search.ambiguity set = #[target] := by
  rw [← size_ambiguity_eq_one_iff h hs, isUnique_eq, running?_eq h hs, ambiguity]
  cases Posting.intersectAll? (set.map search.list) with
  | none => rw [beq_iff_eq, Option.getD_none, Posting.size_all_eq_one_iff h.corpusSize_le]
  | some common => exact beq_iff_eq

/-- The quick test decides whether a set isolates the target. -/
theorem isUnique_iff (h : search.Holds target) {set : List Nat} (hs : ∀ i ∈ set, i < search.size) :
    search.isUnique set = true ↔ search.Isolates target set := by
  rw [isUnique_iff_ambiguity h hs, isolates_iff_ambiguity h hs]

/-! ### Greedy choice -/

/-- Greedy choice takes features from the order it is given. -/
theorem greedyFrom_sublist (search : Search) (running : Option Posting) (order : List Nat) :
    (search.greedyFrom running order).Sublist order := by
  induction order generalizing running with
  | nil => cases running <;> exact List.Sublist.refl _
  | cons i order ih =>
    cases running with
    | none =>
      rw [greedyFrom]
      split
      · simp
      · exact (ih _).cons_cons i
    | some running =>
      rw [greedyFrom]
      split
      · exact (ih _).cons i
      · split
        · simp
        · exact (ih _).cons_cons i

private theorem greedyFrom_excludes (h : search.Holds target) {order : List Nat}
    (ho : ∀ i ∈ order, i < search.size) {running : Posting} (ha : running.Ascending)
    (ht : target ∈ running)
    (hx : ∀ position ∈ running, (∀ i ∈ order, position ∈ search.list i) → position = target) :
    ∀ position ∈ running, (∀ i ∈ search.greedyFrom (some running) order,
      position ∈ search.list i) → position = target := by
  induction order generalizing running with
  | nil => exact hx
  | cons i order ih =>
    obtain ⟨hi, ho⟩ := List.forall_mem_cons.mp ho
    simp only [List.forall_mem_cons] at hx
    intro position hp hc
    rw [greedyFrom] at hc
    split at hc
    · next hs =>
      -- a feature that does not narrow the intersection excludes nothing
      have hl := (Posting.size_intersect_eq_iff ha (h.ascending i)).mp hs
      exact ih ho ha ht (fun q hq hr ↦ hx q hq ⟨hl q hq, hr⟩) position hp hc
    · have hn := ha.intersect (h.ascending i)
      have htn := (Posting.mem_intersect ha (h.ascending i)).mpr ⟨ht, h.target_mem i hi⟩
      obtain ⟨hpi, hc⟩ := List.forall_mem_cons.mp hc
      have hpn := (Posting.mem_intersect ha (h.ascending i)).mpr ⟨hp, hpi⟩
      split at hc
      · next hs => exact (size_eq_one_iff hn htn).mp hs position hpn
      · refine ih ho hn htn (fun q hq hr ↦ ?_) position hpn hc
        obtain ⟨hq, hqi⟩ := (Posting.mem_intersect ha (h.ascending i)).mp hq
        exact hx q hq ⟨hqi, hr⟩

/-- Greedy choice from an order that isolates the target isolates it. -/
theorem isolates_greedy (h : search.Holds target) {order : List Nat}
    (ho : ∀ i ∈ order, i < search.size) (hi : search.Isolates target order) :
    search.Isolates target (search.greedy order) := by
  cases order with
  | nil => exact hi
  | cons i order =>
    obtain ⟨his, ho⟩ := List.forall_mem_cons.mp ho
    intro position hp hc
    rw [greedy, greedyFrom, List.forall_mem_cons] at hc
    obtain ⟨hpi, hc⟩ := hc
    have ht := h.target_mem i his
    split at hc
    · next hs => exact (size_eq_one_iff (h.ascending i) ht).mp hs position hpi
    · refine greedyFrom_excludes h ho (h.ascending i) ht (fun q hq hr ↦ ?_) position hpi hc
      exact hi q (h.below i q hq) (List.forall_mem_cons.mpr ⟨hq, hr⟩)

/-! ### Dropping -/

/-- A pass of dropping only drops. -/
theorem dropPass_sublist (search : Search) (count : Nat) (chosen : List Nat) :
    (search.dropPass count chosen).Sublist chosen := by
  induction count generalizing chosen with
  | zero => exact List.Sublist.refl _
  | succ place ih =>
    rw [dropPass]
    split
    · exact (ih _).trans (List.eraseIdx_sublist _ _)
    · exact ih _

/-- A pass of dropping keeps the target isolated. -/
theorem isolates_dropPass (h : search.Holds target) {count : Nat} {chosen : List Nat}
    (hs : ∀ i ∈ chosen, i < search.size) (hi : search.Isolates target chosen) :
    search.Isolates target (search.dropPass count chosen) := by
  induction count generalizing chosen with
  | zero => exact hi
  | succ place ih =>
    rw [dropPass]
    have hc : ∀ i ∈ chosen.eraseIdx place, i < search.size :=
      fun i hm ↦ hs i (List.mem_of_mem_eraseIdx hm)
    split
    · next hu => exact ih hc ((isUnique_iff h hc).mp hu)
    · exact ih hs hi

private theorem eraseIdx_eraseIdx_subset (set : List Nat) {first second : Nat}
    (h : first ≤ second) :
    (set.eraseIdx first).eraseIdx second ⊆ set.eraseIdx (second + 1) := by
  induction set generalizing first second with
  | nil => simp
  | cons i set ih =>
    cases first with
    | zero => exact List.subset_cons_of_subset i (List.Subset.refl _)
    | succ first =>
      cases second with
      | zero => omega
      | succ second => exact List.cons_subset_cons i (ih (Nat.le_of_succ_le_succ h))

private theorem not_isolates_eraseIdx_of_le (h : search.Holds target) {count : Nat}
    {chosen : List Nat} (hs : ∀ i ∈ chosen, i < search.size)
    (hneed : ∀ place < chosen.length, count ≤ place →
      ¬search.Isolates target (chosen.eraseIdx place)) :
    ∀ place < (search.dropPass count chosen).length,
      ¬search.Isolates target ((search.dropPass count chosen).eraseIdx place) := by
  induction count generalizing chosen with
  | zero => exact fun place hp ↦ hneed place hp (Nat.zero_le place)
  | succ last ih =>
    have hc : ∀ i ∈ chosen.eraseIdx last, i < search.size :=
      fun i hm ↦ hs i (List.mem_of_mem_eraseIdx hm)
    rw [dropPass]
    split
    · apply ih hc
      intro place hp hle hi
      -- the feature at this place stood one place further on before the drop
      have hlt : place + 1 < chosen.length := by
        rw [List.length_eraseIdx] at hp
        split at hp <;> omega
      apply hneed (place + 1) hlt (Nat.succ_le_succ hle)
      exact hi.mono fun i hm ↦ eraseIdx_eraseIdx_subset chosen hle hm
    · next hu =>
      apply ih hs
      intro place hp hle
      rcases Nat.lt_or_eq_of_le hle with hlt | rfl
      · exact hneed place hp hlt
      · rwa [← isUnique_iff h hc]

/-- After one pass every feature that is left is needed. -/
theorem not_isolates_eraseIdx_dropPass (h : search.Holds target) {chosen : List Nat}
    (hs : ∀ i ∈ chosen, i < search.size) {place : Nat}
    (hp : place < (search.dropPass chosen.length chosen).length) :
    ¬search.Isolates target ((search.dropPass chosen.length chosen).eraseIdx place) := by
  apply not_isolates_eraseIdx_of_le h hs _ place hp
  intro other ho hle
  omega

/-- A pass leaves a set of needed features as it is. -/
theorem dropPass_eq_self (h : search.Holds target) {count : Nat} {set : List Nat}
    (hs : ∀ i ∈ set, i < search.size)
    (hn : ∀ place < count, ¬search.Isolates target (set.eraseIdx place)) :
    search.dropPass count set = set := by
  induction count with
  | zero => rfl
  | succ last ih =>
    have hu := hn last (Nat.lt_succ_self last)
    rw [← isUnique_iff h fun i hm ↦ hs i (List.mem_of_mem_eraseIdx hm)] at hu
    rw [dropPass, if_neg hu]
    exact ih fun place hp ↦ hn place (Nat.lt_succ_of_lt hp)

/-- A second pass drops nothing. -/
theorem dropPass_dropPass (h : search.Holds target) {chosen : List Nat}
    (hs : ∀ i ∈ chosen, i < search.size) :
    search.dropPass (search.dropPass chosen.length chosen).length
        (search.dropPass chosen.length chosen) =
      search.dropPass chosen.length chosen := by
  apply dropPass_eq_self h
  · exact fun i hm ↦ hs i ((search.dropPass_sublist _ _).subset hm)
  · exact fun place hp ↦ not_isolates_eraseIdx_dropPass h hs hp

/-- Passes end with one that drops nothing. -/
theorem dropAll_of_dropPass_eq {set : List Nat} (h : search.dropPass set.length set = set) :
    search.dropAll set = set := by
  rw [dropAll]
  simp only [h, Nat.lt_irrefl, if_false]

/-- One pass drops all that can be dropped. -/
theorem dropAll_eq (h : search.Holds target) {chosen : List Nat}
    (hs : ∀ i ∈ chosen, i < search.size) :
    search.dropAll chosen = search.dropPass chosen.length chosen := by
  rw [dropAll]
  split
  · exact dropAll_of_dropPass_eq (dropPass_dropPass h hs)
  · rfl

/-! ### Minimal sets -/

/-- A set without repetitions that isolates the target, and of which no feature can be left out. -/
structure Minimal (search : Search) (target : Nat) (set : List Nat) : Prop where
  ascending : set.Pairwise (· < ·)
  inRange : ∀ i ∈ set, i < search.size
  isolates : search.Isolates target set
  needed : ∀ i ∈ set, ¬search.Isolates target (set.erase i)

private theorem pairwise_lt_mergeSort {set : List Nat} (hn : set.Nodup) :
    (set.mergeSort (· ≤ ·)).Pairwise (· < ·) := by
  have hs : (set.mergeSort (· ≤ ·)).Pairwise fun a b ↦ decide (a ≤ b) = true :=
    List.pairwise_mergeSort (by simpa using fun _ _ _ ↦ Nat.le_trans)
      (by simpa using Nat.le_total) set
  have hd := (List.mergeSort_perm set (· ≤ ·)).nodup_iff.mpr hn
  apply (List.pairwise_and_iff.mpr ⟨hs, hd⟩).imp
  intro a b hab
  have := of_decide_eq_true hab.1
  omega

/-- The set that is left after dropping is minimal. -/
theorem minimal_shrink (h : search.Holds target) {chosen : List Nat} (hn : chosen.Nodup)
    (hs : ∀ i ∈ chosen, i < search.size) (hi : search.Isolates target chosen) :
    search.Minimal target (search.shrink chosen) := by
  have hsub := search.dropPass_sublist chosen.length chosen
  have hnd := hn.sublist hsub
  have hp := List.mergeSort_perm (search.dropPass chosen.length chosen) (· ≤ ·)
  rw [shrink, dropAll_eq h hs]
  refine ⟨pairwise_lt_mergeSort hnd, fun i hm ↦ hs i (hsub.subset (hp.mem_iff.mp hm)), ?_, ?_⟩
  · exact (isolates_congr fun i ↦ hp.mem_iff).mpr (isolates_dropPass h hs hi)
  · intro i hm hc
    rw [isolates_congr fun j ↦ (hp.erase i).mem_iff] at hc
    obtain ⟨place, hl, rfl⟩ := List.mem_iff_getElem.mp (hp.mem_iff.mp hm)
    rw [hnd.erase_getElem place hl] at hc
    exact not_isolates_eraseIdx_dropPass h hs hl hc

/-- Shrinking leaves a minimal set as it is. -/
theorem Minimal.shrink_eq (h : search.Holds target) {set : List Nat}
    (hm : search.Minimal target set) : search.shrink set = set := by
  have hd : set.Nodup := hm.ascending.imp Nat.ne_of_lt
  have hpass : search.dropPass set.length set = set := by
    apply dropPass_eq_self h hm.inRange
    intro place hp
    rw [← hd.erase_getElem place hp]
    exact hm.needed set[place] (List.getElem_mem hp)
  rw [shrink, dropAll_of_dropPass_eq hpass]
  apply List.mergeSort_eq_self
  exact hm.ascending.imp Nat.le_of_lt

end MethodPrint.Search
