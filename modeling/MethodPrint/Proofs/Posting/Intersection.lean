import Mathlib.Data.List.Sort
import MethodPrint.Posting

/-!
# Common entries of posting lists

Both ways to intersect ascending lists, looking up and merging, give exactly the common entries in
ascending order, and so does the intersection of any number of lists.
-/

namespace MethodPrint.Posting

/-- Every entry is smaller than those after it. -/
def Ascending (list : Posting) : Prop := list.toList.Pairwise (· < ·)

/-- Ascending lists with the same entries are equal. -/
theorem Ascending.ext {a b : Posting} (ha : a.Ascending) (hb : b.Ascending)
    (h : ∀ value, value ∈ a ↔ value ∈ b) : a = b := by
  apply Array.toList_inj.mp
  exact List.Pairwise.eq_of_mem_iff ha hb (by simpa using h)

/-- An ascending list that holds a value is this value alone if it holds nothing else. -/
theorem Ascending.eq_singleton_iff {list : Posting} (h : list.Ascending) {value : Nat}
    (hv : value ∈ list) : list = #[value] ↔ ∀ other ∈ list, other = value := by
  constructor
  · rintro rfl other ho
    exact Array.mem_singleton.mp ho
  · intro hu
    apply h.ext (List.pairwise_singleton _ _)
    intro other
    rw [Array.mem_singleton]
    exact ⟨hu other, fun he ↦ he ▸ hv⟩

private theorem Ascending.lt {list : Posting} (h : list.Ascending) {i j x y : Nat} (hij : i < j)
    (hx : list[i]? = some x) (hy : list[j]? = some y) : x < y := by
  obtain ⟨hi, rfl⟩ := Array.getElem?_eq_some_iff.mp hx
  obtain ⟨hj, rfl⟩ := Array.getElem?_eq_some_iff.mp hy
  exact List.pairwise_iff_getElem.mp h i j (by simpa using hi) (by simpa using hj) hij

/-! ### Looking up -/

private theorem le_lowerBound (list : Posting) (value low high : Nat) :
    low ≤ list.lowerBound value low high := by
  fun_induction lowerBound list value low high with
  | case1 low high hlt middle _ ih => exact Nat.le_trans (by omega) ih
  | case2 low high hlt middle _ ih => exact ih
  | case3 => exact Nat.le_refl _

/-- What the search passes over is smaller than the value it looks for. -/
theorem lt_of_lt_lowerBound {list : Posting} (h : list.Ascending) {value low high i entry : Nat}
    (hh : high ≤ list.size) (hl : low ≤ i) (hi : i < list.lowerBound value low high)
    (he : list[i]? = some entry) : entry < value := by
  fun_induction lowerBound list value low high with
  | case1 low high hlt middle hm ih =>
    by_cases hmi : middle < i
    · exact ih hh hmi hi
    · have hs : middle < list.size := by omega
      rw [Array.getElem?_eq_getElem hs, Option.getD_some] at hm
      rcases Nat.lt_or_eq_of_le (Nat.not_lt.mp hmi) with hlt | rfl
      · exact Nat.lt_trans (h.lt hlt he (Array.getElem?_eq_getElem hs)) hm
      · rw [Array.getElem?_eq_getElem hs, Option.some.injEq] at he
        exact he ▸ hm
  | case2 low high hlt middle hm ih => exact ih (by omega) hl hi
  | case3 low high hlt => omega

/-- What the search leaves is not smaller than the value it looks for. -/
theorem le_of_lowerBound_le {list : Posting} (h : list.Ascending) {value low high i entry : Nat}
    (hh : high ≤ list.size) (hi : list.lowerBound value low high ≤ i) (hih : i < high)
    (he : list[i]? = some entry) : value ≤ entry := by
  fun_induction lowerBound list value low high with
  | case1 low high hlt middle hm ih => exact ih hh hi hih
  | case2 low high hlt middle hm ih =>
    by_cases him : i < middle
    · exact ih (by omega) hi him
    · have hs : middle < list.size := by omega
      rw [Array.getElem?_eq_getElem hs, Option.getD_some] at hm
      rcases Nat.lt_or_eq_of_le (Nat.not_lt.mp him) with hlt | rfl
      · have := h.lt hlt (Array.getElem?_eq_getElem hs) he
        omega
      · rw [Array.getElem?_eq_getElem hs, Option.some.injEq] at he
        omega
  | case3 low high hlt => omega

private theorem mem_drop_iff {list : List Nat} {value low : Nat} :
    value ∈ list.drop low ↔ ∃ i, low ≤ i ∧ list[i]? = some value := by
  rw [List.mem_iff_getElem?]
  constructor
  · rintro ⟨i, hi⟩
    exact ⟨low + i, Nat.le_add_right _ _, by rwa [List.getElem?_drop] at hi⟩
  · rintro ⟨i, hl, hi⟩
    exact ⟨i - low, by rwa [List.getElem?_drop, Nat.add_sub_cancel' hl]⟩

private theorem mem_drop_iff_lowerBound {long : Posting} (h : long.Ascending) (value low : Nat) :
    value ∈ long.toList.drop low ↔ long[long.lowerBound value low long.size]? = some value := by
  rw [mem_drop_iff]
  constructor
  · rintro ⟨i, hl, hi⟩
    rw [Array.getElem?_toList] at hi
    have hs : i < long.size := (Array.getElem?_eq_some_iff.mp hi).1
    have hp : long.lowerBound value low long.size ≤ i := by
      apply Nat.not_lt.mp
      intro hlt
      exact Nat.lt_irrefl _ (lt_of_lt_lowerBound h (Nat.le_refl _) hl hlt hi)
    rcases Nat.lt_or_eq_of_le hp with hlt | he
    · have hs' := Nat.lt_trans hlt hs
      have hv := Array.getElem?_eq_getElem hs'
      have := le_of_lowerBound_le h (Nat.le_refl _) (Nat.le_refl _) hs' hv
      have := h.lt hlt hv hi
      omega
    · rw [he, hi]
  · intro hp
    exact ⟨_, le_lowerBound .., by rw [Array.getElem?_toList, hp]⟩

private theorem mem_drop_lowerBound {long : Posting} (h : long.Ascending) {value v : Nat}
    (hv : value < v) (low : Nat) :
    v ∈ long.toList.drop low ↔ v ∈ long.toList.drop (long.lowerBound value low long.size) := by
  simp only [mem_drop_iff, Array.getElem?_toList]
  constructor
  · rintro ⟨i, hl, hi⟩
    refine ⟨i, Nat.not_lt.mp fun hlt ↦ ?_, hi⟩
    have := lt_of_lt_lowerBound h (Nat.le_refl _) hl hlt hi
    omega
  · rintro ⟨i, hl, hi⟩
    exact ⟨i, Nat.le_trans (le_lowerBound ..) hl, hi⟩

private theorem mem_drop_succ {long : List Nat} {place value v : Nat}
    (hp : long[place]? = some value) (hv : value < v) :
    v ∈ long.drop place ↔ v ∈ long.drop (place + 1) := by
  obtain ⟨hs, rfl⟩ := List.getElem?_eq_some_iff.mp hp
  rw [List.drop_eq_getElem_cons hs, List.mem_cons, or_iff_right (by omega)]

/-- Looking up keeps the entries that stand in the long list from the given place on. -/
theorem probe_eq_filter {long : Posting} (hl : long.Ascending) {short : List Nat}
    (hs : short.Pairwise (· < ·)) (low : Nat) :
    probe long short low = short.filter (· ∈ long.toList.drop low) := by
  induction short generalizing low with
  | nil => rfl
  | cons value short ih =>
    obtain ⟨hv, hs⟩ := List.pairwise_cons.mp hs
    have hm := mem_drop_iff_lowerBound hl value low
    rw [probe]
    split
    · next hp =>
      rw [List.filter_cons_of_pos (by simpa using hm.mpr hp), ih hs]
      congr 1
      apply List.filter_congr
      intro v hvs
      have hd := mem_drop_succ (by rwa [Array.getElem?_toList]) (hv v hvs)
      rw [decide_eq_decide, mem_drop_lowerBound hl (hv v hvs) low, hd]
    · next hp =>
      rw [List.filter_cons_of_neg (by simpa using fun h ↦ hp (hm.mp h)), ih hs]
      apply List.filter_congr
      intro v hvs
      rw [decide_eq_decide, mem_drop_lowerBound hl (hv v hvs) low]

/-! ### Merging -/

private theorem filter_mem_cons_of_lt {xs ys : List Nat} {y : Nat} (h : ∀ x ∈ xs, y < x) :
    xs.filter (· ∈ y :: ys) = xs.filter (· ∈ ys) := by
  apply List.filter_congr
  intro x hx
  have := h x hx
  rw [decide_eq_decide, List.mem_cons, or_iff_right (by omega)]

/-- Merging keeps the entries of one list that also stand in the other. -/
theorem merge_eq_filter {xs ys : List Nat} (hx : xs.Pairwise (· < ·)) (hy : ys.Pairwise (· < ·)) :
    merge xs ys = xs.filter (· ∈ ys) := by
  fun_induction merge xs ys with
  | case1 x xs y ys hlt ih =>
    have hn : x ∉ y :: ys := by
      rw [List.mem_cons, not_or]
      refine ⟨by omega, fun hm ↦ ?_⟩
      have := (List.pairwise_cons.mp hy).1 x hm
      omega
    rw [ih (List.pairwise_cons.mp hx).2 hy, List.filter_cons_of_neg (by simpa using hn)]
  | case2 x xs y ys _ hlt ih =>
    rw [ih hx (List.pairwise_cons.mp hy).2, filter_mem_cons_of_lt]
    intro v hv
    rcases List.mem_cons.mp hv with rfl | hv
    · exact hlt
    · exact Nat.lt_trans hlt ((List.pairwise_cons.mp hx).1 v hv)
  | case3 x xs y ys h h' ih =>
    obtain rfl : x = y := by omega
    obtain ⟨hx, hxs⟩ := List.pairwise_cons.mp hx
    rw [ih hxs (List.pairwise_cons.mp hy).2, List.filter_cons_of_pos (by simp),
      filter_mem_cons_of_lt hx]
  | case4 xs ys h =>
    cases xs with
    | nil => rfl
    | cons x xs =>
      cases ys with
      | nil => simp
      | cons y ys => exact (h _ _ _ _ rfl rfl).elim

/-! ### Intersections -/

/-- The intersection of two lists keeps the entries of one that also stand in the other, whichever
list is the longer one. -/
theorem toList_intersect {a b : Posting} (ha : a.Ascending) (hb : b.Ascending) :
    (a.intersect b).toList = a.toList.filter (· ∈ b.toList) := by
  have hm : merge b.toList a.toList = a.toList.filter (· ∈ b.toList) := by
    rw [merge_comm, merge_eq_filter ha hb]
  simp only [intersect]
  split
  · split
    · rw [probe_eq_filter hb ha, List.drop_zero]
    · rw [merge_eq_filter ha hb]
  · split
    · rw [probe_eq_filter ha hb, List.drop_zero, ← merge_eq_filter hb ha, hm]
    · rw [merge_eq_filter ha hb]

/-- The intersection of two lists has exactly the common entries. -/
theorem mem_intersect {a b : Posting} (ha : a.Ascending) (hb : b.Ascending) {value : Nat} :
    value ∈ a.intersect b ↔ value ∈ a ∧ value ∈ b := by
  rw [← Array.mem_toList_iff, toList_intersect ha hb]
  simp

/-- The intersection of ascending lists is ascending. -/
theorem Ascending.intersect {a b : Posting} (ha : a.Ascending) (hb : b.Ascending) :
    (a.intersect b).Ascending := by
  rw [Ascending, toList_intersect ha hb]
  exact ha.filter _

/-- The intersection is no longer than the first list, and as long only if it is that list. -/
theorem size_intersect_eq_iff {a b : Posting} (ha : a.Ascending) (hb : b.Ascending) :
    (a.intersect b).size = a.size ↔ ∀ value ∈ a, value ∈ b := by
  rw [← Array.length_toList, ← Array.length_toList, toList_intersect ha hb,
    List.length_filter_eq_length_iff]
  simp

/-- Narrowing keeps a running intersection ascending. -/
theorem Ascending.narrow {a b : Posting} (ha : a.Ascending) (hb : b.Ascending) :
    (a.narrow b).Ascending := by
  unfold Posting.narrow
  split
  · exact ha
  · exact ha.intersect hb

/-- Narrowing keeps the entries that stand in the next list. -/
theorem mem_narrow {a b : Posting} (ha : a.Ascending) (hb : b.Ascending) {value : Nat} :
    value ∈ a.narrow b ↔ value ∈ a ∧ value ∈ b := by
  unfold narrow
  split
  · next h => simp [Array.isEmpty_iff.mp h]
  · exact mem_intersect ha hb

private theorem foldl_narrow {first : Posting} (hf : first.Ascending) {rest : List Posting}
    (hr : ∀ list ∈ rest, list.Ascending) :
    (rest.foldl narrow first).Ascending ∧
      ∀ value, value ∈ rest.foldl narrow first ↔ value ∈ first ∧ ∀ list ∈ rest, value ∈ list := by
  induction rest generalizing first with
  | nil => simp [hf]
  | cons list rest ih =>
    obtain ⟨hl, hr⟩ := List.forall_mem_cons.mp hr
    obtain ⟨ha, hm⟩ := ih (hf.narrow hl) hr
    refine ⟨ha, fun value ↦ ?_⟩
    rw [List.foldl_cons, hm, mem_narrow hf hl, List.forall_mem_cons, and_assoc]

/-- Sorting by length keeps the lists. -/
theorem mem_shortestFirst {lists : List Posting} {list : Posting} :
    list ∈ shortestFirst lists ↔ list ∈ lists := List.mem_mergeSort

/-- The intersection of ascending lists is ascending and has exactly the entries that are common to
all of them. -/
theorem intersectAll?_eq_some {lists : List Posting} (h : ∀ list ∈ lists, list.Ascending)
    {common : Posting} (hc : intersectAll? lists = some common) :
    common.Ascending ∧ ∀ value, value ∈ common ↔ ∀ list ∈ lists, value ∈ list := by
  unfold intersectAll? at hc
  split at hc
  · cases hc
  · next first rest hs =>
    have hm (list : Posting) : list ∈ lists ↔ list ∈ first :: rest := by
      rw [← hs, mem_shortestFirst]
    obtain ⟨hf, hr⟩ := List.forall_mem_cons.mp fun list hl ↦ h list ((hm list).mpr hl)
    obtain ⟨ha, he⟩ := foldl_narrow hf hr
    cases hc
    refine ⟨ha, fun value ↦ ?_⟩
    simp only [he, hm, List.forall_mem_cons]

/-- The positions of some methods are ascending. -/
theorem ascending_all (size : Nat) : (all size).Ascending := by
  rw [all, Ascending, Array.toList_range]
  exact List.pairwise_lt_range

/-- The positions of methods that stand in all lists. No lists leave every position, unless there
are more methods than a position can count. -/
theorem getD_intersectAll? {lists : List Posting} {size : Nat}
    (h : ∀ list ∈ lists, list.Ascending) (hb : ∀ list ∈ lists, ∀ value ∈ list, value < size)
    (hs : size ≤ UInt32.size) :
    ((intersectAll? lists).getD (all size)).Ascending ∧
      ∀ value, value ∈ (intersectAll? lists).getD (all size) ↔
        (lists = [] → size < UInt32.size) ∧ value < size ∧ ∀ list ∈ lists, value ∈ list := by
  cases hc : intersectAll? lists with
  | none =>
    obtain rfl := intersectAll?_eq_none_iff.mp hc
    exact ⟨ascending_all size, fun value ↦ by simp [mem_all_iff hs]⟩
  | some common =>
    obtain ⟨ha, hm⟩ := intersectAll?_eq_some h hc
    have hne : lists ≠ [] := by
      rw [ne_eq, ← intersectAll?_eq_none_iff, hc]
      exact nofun
    refine ⟨ha, fun value ↦ ?_⟩
    rw [Option.getD_some, hm, and_iff_right fun hnil ↦ absurd hnil hne, iff_and_self]
    intro hv
    obtain ⟨list, hl⟩ := List.exists_mem_of_ne_nil lists hne
    exact hb list hl value (hv list hl)

end MethodPrint.Posting
