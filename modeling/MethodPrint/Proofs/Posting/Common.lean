import MethodPrint.Proofs.Posting.Intersection

/-!
# The common list

Ascending posting lists have one list of common entries. Every way to compute it gives that list:
looking up in either list, merging, and intersecting any number of lists in any order, some of them
more than once.
-/

namespace MethodPrint.Posting

/-- A list has exactly the entries that are common to some lists, in ascending order. -/
structure IsCommon (lists : List Posting) (common : Posting) : Prop where
  ascending : common.Ascending
  mem_iff : ∀ value, value ∈ common ↔ ∀ list ∈ lists, value ∈ list

/-- What lists have in common depends on which lists there are, and not on their order or on how
often each of them is given. -/
theorem IsCommon.unique {lists others : List Posting} {common shared : Posting}
    (h : IsCommon lists common) (ho : IsCommon others shared)
    (hs : ∀ list, list ∈ lists ↔ list ∈ others) : common = shared := by
  apply h.ascending.ext ho.ascending
  intro value
  simp only [h.mem_iff, ho.mem_iff, hs]

/-! ### Two lists -/

section

variable {a b : Posting}

private theorem isCommon_filter (ha : a.Ascending) :
    IsCommon [a, b] (a.toList.filter (· ∈ b.toList)).toArray where
  ascending := ha.filter _
  mem_iff value := by simp

/-- Looking up the entries of one list in the other gives the common list. -/
theorem isCommon_probe (ha : a.Ascending) (hb : b.Ascending) :
    IsCommon [a, b] (probe b a.toList 0).toArray := by
  rw [probe_eq_filter hb ha, List.drop_zero]
  exact isCommon_filter ha

/-- Walking over both lists gives the common list. -/
theorem isCommon_merge (ha : a.Ascending) (hb : b.Ascending) :
    IsCommon [a, b] (merge a.toList b.toList).toArray := by
  rw [merge_eq_filter ha hb]
  exact isCommon_filter ha

/-- The intersection is the common list, whatever the lengths. -/
theorem isCommon_intersect (ha : a.Ascending) (hb : b.Ascending) :
    IsCommon [a, b] (a.intersect b) where
  ascending := ha.intersect hb
  mem_iff value := by simp [mem_intersect ha hb]

/-- What two lists have in common, and all ways to compute it. -/
structure Meets (a b : Posting) : Prop where
  ascending : (a.intersect b).Ascending
  mem_iff : ∀ value, value ∈ a.intersect b ↔ value ∈ a ∧ value ∈ b
  comm : b.intersect a = a.intersect b
  /-- The entries of the first list are looked up in the second. -/
  probed : (probe b a.toList 0).toArray = a.intersect b
  /-- The entries of the second list are looked up in the first. -/
  probedBack : (probe a b.toList 0).toArray = a.intersect b
  merged : (merge a.toList b.toList).toArray = a.intersect b

/-- Ascending lists meet. -/
theorem Ascending.meets (ha : a.Ascending) (hb : b.Ascending) : Meets a b := by
  have hi := isCommon_intersect ha hb
  have hswap : ∀ list, list ∈ [b, a] ↔ list ∈ [a, b] := by simp [or_comm]
  exact {
    ascending := hi.ascending
    mem_iff := fun _ ↦ mem_intersect ha hb
    comm := (isCommon_intersect hb ha).unique hi hswap
    probed := (isCommon_probe ha hb).unique hi fun _ ↦ Iff.rfl
    probedBack := (isCommon_probe hb ha).unique hi hswap
    merged := (isCommon_merge ha hb).unique hi fun _ ↦ Iff.rfl }

end

/-! ### Any number of lists -/

/-- Lists, if there are any, have a common list, and the intersection of all of them is it. -/
theorem exists_isCommon {lists : List Posting} (h : ∀ list ∈ lists, list.Ascending)
    (hn : lists ≠ []) : ∃ common, intersectAll? lists = some common ∧ IsCommon lists common := by
  obtain ⟨common, hc⟩ := Option.ne_none_iff_exists'.mp (mt intersectAll?_eq_none_iff.mp hn)
  obtain ⟨ha, hm⟩ := intersectAll?_eq_some h hc
  exact ⟨common, hc, ha, hm⟩

/-- The intersection of all lists depends only on which lists there are. -/
theorem intersectAll?_congr {lists others : List Posting} (h : ∀ list ∈ lists, list.Ascending)
    (hs : ∀ list, list ∈ others ↔ list ∈ lists) : intersectAll? others = intersectAll? lists := by
  cases lists with
  | nil =>
    obtain rfl : others = [] := List.eq_nil_iff_forall_not_mem.mpr (by simpa using hs)
    rfl
  | cons list lists =>
    have ho : others ≠ [] := List.ne_nil_of_mem ((hs list).mpr List.mem_cons_self)
    obtain ⟨common, hc, hi⟩ := exists_isCommon h (List.cons_ne_nil _ _)
    obtain ⟨shared, ho, hi'⟩ := exists_isCommon (fun l hl ↦ h l ((hs l).mp hl)) ho
    rw [hc, ho, hi'.unique hi hs]

/-- Whatever the lists, as long as they are ascending: two of them meet, and all of them, in any
order and each any number of times, have their common list as intersection. There is none exactly
if there are no lists. -/
theorem common_of_ascending {a b : Posting} {lists : List Posting} (ha : a.Ascending)
    (hb : b.Ascending) (hl : ∀ list ∈ lists, list.Ascending) :
    Meets a b ∧ (intersectAll? lists = none ↔ lists = []) ∧
      (lists ≠ [] → ∃ common, intersectAll? lists = some common ∧ IsCommon lists common) ∧
      ∀ others, (∀ list, list ∈ others ↔ list ∈ lists) →
        intersectAll? others = intersectAll? lists :=
  ⟨ha.meets hb, intersectAll?_eq_none_iff, exists_isCommon hl, fun _ ↦ intersectAll?_congr hl⟩

/-- One list is long enough to be searched for the entries of the other; it is given twice. -/
theorem common_of_ascending_searched :
    let a : Posting := #[2, 11]
    let b : Posting := Array.range 20
    let lists := [b, a, b]
    a.size * 8 < b.size ∧ a.intersect b = #[2, 11] ∧
      a.Ascending ∧ b.Ascending ∧ (∀ list ∈ lists, list.Ascending) ∧
      Meets a b ∧ (intersectAll? lists = none ↔ lists = []) ∧
      (lists ≠ [] → ∃ common, intersectAll? lists = some common ∧ IsCommon lists common) ∧
      ∀ others, (∀ list, list ∈ others ↔ list ∈ lists) →
        intersectAll? others = intersectAll? lists := by
  intro a b lists
  have ha : a.Ascending := by
    unfold Ascending
    decide
  have hb : b.Ascending := by
    unfold Ascending
    decide
  have hl : ∀ list ∈ lists, list.Ascending := by simp [lists, ha, hb]
  have hv : a.intersect b = #[2, 11] := by
    rw [← Array.toList_inj, toList_intersect ha hb]
    decide
  exact ⟨by decide, hv, ha, hb, hl, common_of_ascending ha hb hl⟩

end MethodPrint.Posting
