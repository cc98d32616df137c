/-!
# Combinations

The ascending lists of a fixed length over the numbers below a bound, in lexicographic order. One
step leads from a combination to the next, and the steps come to an end.

`SPEC_FULL.md` 4.3, rule 5; operation `next_combination`.
-/

namespace MethodPrint.Combination

/-- The first combination of a size. -/
def first (size : Nat) : List Nat := List.range size

/-- The next combination of numbers below `bound` (`next_combination`): the last entry that can grow
grows by one, and those after it follow on. -/
def next? (bound : Nat) : List Nat → Option (List Nat)
  | [] => none
  | c :: rest =>
    match next? bound rest with
    | some stepped => some (c :: stepped)
    | none =>
      if c + rest.length + 1 < bound then some (List.range' (c + 1) (rest.length + 1)) else none

/-- A bound on the steps ahead: the distances to the bound, read as the digits of a number. -/
def ahead (bound : Nat) : List Nat → Nat
  | [] => 0
  | c :: rest => (bound - c) * Nat.pow (bound + 1) rest.length + ahead bound rest

/-- A step keeps the size. -/
theorem length_of_next? {bound : Nat} {comb stepped : List Nat}
    (h : next? bound comb = some stepped) : stepped.length = comb.length := by
  fun_induction next? bound comb generalizing stepped with
  | case1 => cases h
  | case2 c rest next hn ih => cases h; simp [ih hn]
  | case3 c rest _ _ _ => cases h; simp
  | case4 => cases h

/-- The digits are digits of the base `bound + 1`. -/
theorem ahead_lt (bound : Nat) (comb : List Nat) :
    ahead bound comb < Nat.pow (bound + 1) comb.length := by
  induction comb with
  | nil => simp [ahead]
  | cons c rest ih =>
    have h : (bound - c) * Nat.pow (bound + 1) rest.length ≤
        bound * Nat.pow (bound + 1) rest.length := Nat.mul_le_mul_right _ (Nat.sub_le _ _)
    have hp : Nat.pow (bound + 1) (c :: rest).length =
        Nat.pow (bound + 1) rest.length * (bound + 1) := rfl
    rw [hp, Nat.mul_comm _ (bound + 1), Nat.succ_mul, ahead]
    omega

/-- Every step leaves fewer steps ahead. -/
theorem ahead_of_next? {bound : Nat} {comb stepped : List Nat}
    (h : next? bound comb = some stepped) : ahead bound stepped < ahead bound comb := by
  fun_induction next? bound comb generalizing stepped with
  | case1 => cases h
  | case2 c rest next hn ih =>
    cases h
    have := ih hn
    rw [ahead, ahead, length_of_next? hn]
    omega
  | case3 c rest _ hlt _ =>
    cases h
    have hr := ahead_lt bound (List.range' (c + 1 + 1) rest.length)
    have hc : bound - c = bound - (c + 1) + 1 := by omega
    rw [List.range'_succ, ahead, ahead, hc, Nat.succ_mul]
    simp only [List.length_range'] at hr ⊢
    omega
  | case4 => cases h

/-- The combinations with a property, from a given one on, but at most `limit` of them. Looks no
further than the last one it keeps. -/
def collect (bound : Nat) (keep : List Nat → Bool) : Nat → List Nat → List (List Nat)
  | 0, _ => []
  | limit + 1, comb =>
    if keep comb then
      comb :: (match _h : next? bound comb with
        | some stepped => collect bound keep limit stepped
        | none => [])
    else
      match _h : next? bound comb with
      | some stepped => collect bound keep (limit + 1) stepped
      | none => []
termination_by _ comb => ahead bound comb
decreasing_by
  · exact ahead_of_next? _h
  · exact ahead_of_next? _h

/-- No more combinations are kept than asked for. -/
theorem length_collect_le (bound : Nat) (keep : List Nat → Bool) (limit : Nat) (comb : List Nat) :
    (collect bound keep limit comb).length ≤ limit := by
  fun_induction collect bound keep limit comb <;> grind

/-- Every combination that is kept has the property. -/
theorem keep_of_mem_collect {bound : Nat} {keep : List Nat → Bool} {limit : Nat}
    {comb found : List Nat} (h : found ∈ collect bound keep limit comb) : keep found = true := by
  fun_induction collect bound keep limit comb <;> grind

end MethodPrint.Combination
