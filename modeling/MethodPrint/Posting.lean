/-!
# Posting lists

A posting list holds the positions of the methods that carry a feature, in ascending order. What
several features have in common is the intersection of their lists. Where one list is much shorter
than the other its entries are looked up in the longer one; otherwise the two are merged.

`SPEC_FULL.md` 4.2; operations `intersect` and `intersect_all`.
-/

namespace MethodPrint

/-- Positions of methods in ascending order. -/
abbrev Posting := Array Nat

namespace Posting

/-- A number as a position: its lowest 32 bits. -/
def wrap (n : Nat) : Nat := n % UInt32.size

/-- The positions of as many methods as there are. Their number is cut to 32 bits like a position,
so that a corpus which uses up all positions is left with none here. -/
def all (size : Nat) : Posting := Array.range (wrap size)

/-- The first place from `low` on, and below `high`, whose entry is not less than a value; `high`
if there is none. Halves the range on every step. -/
def lowerBound (list : Posting) (value low high : Nat) : Nat :=
  if low < high then
    let middle := low + (high - low) / 2
    if list[middle]?.getD 0 < value then lowerBound list value (middle + 1) high
    else lowerBound list value low middle
  else low
termination_by high - low

/-- The entries of a short list that also stand in a long one, from a place of the long one on. -/
def probe (long : Posting) : List Nat → Nat → List Nat
  | [], _ => []
  | value :: short, low =>
    let place := long.lowerBound value low long.size
    if long[place]? = some value then value :: probe long short (place + 1)
    else probe long short place

/-- The common entries of two lists by one walk over both. -/
def merge : List Nat → List Nat → List Nat
  | x :: xs, y :: ys =>
    if x < y then merge xs (y :: ys)
    else if y < x then merge (x :: xs) ys
    else x :: merge xs ys
  | _, _ => []
termination_by xs ys => xs.length + ys.length

/-- The common entries of two lists. A list more than eight times as long as the other is searched
and not walked. -/
def intersect (a b : Posting) : Posting :=
  let short := if a.size ≤ b.size then a else b
  let long := if a.size ≤ b.size then b else a
  if short.size * 8 < long.size then (probe long short.toList 0).toArray
  else (merge a.toList b.toList).toArray

/-- The entries of a running intersection that stand in one more list. -/
def narrow (running list : Posting) : Posting :=
  if running.isEmpty then running else running.intersect list

/-- The lists with the shortest first; lists of one length keep their order. -/
def shortestFirst (lists : List Posting) : List Posting :=
  lists.mergeSort fun a b ↦ a.size ≤ b.size

/-- The common entries of all lists (`intersect_all`). No list at all has no answer: the empty
conjunction holds of every position, and only the caller knows which there are. -/
def intersectAll? (lists : List Posting) : Option Posting :=
  match shortestFirst lists with
  | [] => none
  | first :: rest => some (rest.foldl narrow first)

/-- A number of 32 bits is a position as it is. -/
theorem wrap_of_lt {n : Nat} (h : n < UInt32.size) : wrap n = n := Nat.mod_eq_of_lt h

/-- Fewer methods than there are positions have all positions below their number. -/
theorem all_of_lt {size : Nat} (h : size < UInt32.size) : all size = Array.range size := by
  rw [all, wrap_of_lt h]

/-- As many methods as there are positions have none. -/
theorem all_of_eq {size : Nat} (h : size = UInt32.size) : all size = #[] := by
  rw [all, wrap, h, Nat.mod_self]
  rfl

/-- The positions of some methods are those below their number, unless that is too large. -/
theorem mem_all_iff {size position : Nat} (h : size ≤ UInt32.size) :
    position ∈ all size ↔ size < UInt32.size ∧ position < size := by
  rcases Nat.lt_or_eq_of_le h with hlt | heq
  · simp [all_of_lt hlt, hlt]
  · rw [all_of_eq heq]
    simp [heq]

/-- There is one position exactly if there is one method. -/
theorem size_all_eq_one_iff {size : Nat} (h : size ≤ UInt32.size) :
    (all size).size = 1 ↔ size = 1 := by
  rcases Nat.lt_or_eq_of_le h with hlt | rfl
  · rw [all_of_lt hlt, Array.size_range]
  · rw [all_of_eq rfl]
    decide

/-- The search stays within its range. -/
theorem lowerBound_le (list : Posting) (value : Nat) {low high : Nat} (h : low ≤ high) :
    list.lowerBound value low high ≤ high := by
  fun_induction lowerBound list value low high with
  | case1 low high hlt middle _ ih => exact ih (by omega)
  | case2 low high hlt middle _ ih => exact Nat.le_trans (ih (by omega)) (by omega)
  | case3 => exact h

/-- The order of two lists does not matter to a merge. -/
theorem merge_comm (xs ys : List Nat) : merge xs ys = merge ys xs := by
  fun_induction merge xs ys with
  | case1 x xs y ys h ih => rw [ih, merge, if_neg (by omega), if_pos h]
  | case2 x xs y ys h h' ih => rw [ih, merge, if_pos h']
  | case3 x xs y ys h h' ih =>
    obtain rfl : x = y := by omega
    rw [merge, if_neg h, if_neg h, ih]
  | case4 xs ys h =>
    cases xs <;> cases ys <;> first | exact (h _ _ _ _ rfl rfl).elim | simp [merge]

/-- There is no intersection exactly when there are no lists. -/
theorem intersectAll?_eq_none_iff {lists : List Posting} :
    intersectAll? lists = none ↔ lists = [] := by
  unfold intersectAll?
  split
  · next h =>
    have hl := congrArg List.length h
    simp only [shortestFirst, List.length_mergeSort, List.length_nil] at hl
    simp [List.eq_nil_of_length_eq_zero hl]
  · next first rest h =>
    constructor
    · intro hn
      cases hn
    · rintro rfl
      simp [shortestFirst] at h

end Posting

end MethodPrint
