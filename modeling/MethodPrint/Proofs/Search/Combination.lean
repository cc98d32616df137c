import MethodPrint.Search.Combination

/-!
# Stepping through combinations

Stepping on from a combination meets every later combination of its size once and in lexicographic
order. A search that collects the combinations with a property therefore misses none before it has
as many as it was asked for.
-/

namespace MethodPrint.Combination

/-- An ascending list of numbers below a bound. -/
structure IsCombination (bound : Nat) (comb : List Nat) : Prop where
  ascending : comb.Pairwise (· < ·)
  below : ∀ c ∈ comb, c < bound

/-- The combinations from one on. -/
def stepsFrom (bound : Nat) (comb : List Nat) : List (List Nat) :=
  match _h : next? bound comb with
  | some stepped => comb :: stepsFrom bound stepped
  | none => [comb]
termination_by ahead bound comb
decreasing_by exact ahead_of_next? _h

private theorem stepsFrom_of_some {bound : Nat} {comb stepped : List Nat}
    (h : next? bound comb = some stepped) :
    stepsFrom bound comb = comb :: stepsFrom bound stepped := by
  rw [stepsFrom]
  split
  · next other ho => rw [Option.some.inj (h.symm.trans ho)]
  · next hn => rw [h] at hn; cases hn

private theorem stepsFrom_of_none {bound : Nat} {comb : List Nat} (h : next? bound comb = none) :
    stepsFrom bound comb = [comb] := by
  rw [stepsFrom]
  split
  · next hs => rw [h] at hs; cases hs
  · rfl

/-- Without its first entry a combination is still one. -/
theorem IsCombination.tail {bound c : Nat} {rest : List Nat}
    (h : IsCombination bound (c :: rest)) : IsCombination bound rest :=
  ⟨(List.pairwise_cons.mp h.ascending).2, fun d hd ↦ h.below d (List.mem_cons_of_mem c hd)⟩

/-- Between the first entry and the bound there is room for the entries after it. -/
theorem IsCombination.add_length_lt {bound c : Nat} {rest : List Nat}
    (h : IsCombination bound (c :: rest)) : c + rest.length < bound := by
  induction rest generalizing c with
  | nil => simpa using h.below c
  | cons d rest ih =>
    have hcd := (List.pairwise_cons.mp h.ascending).1 d List.mem_cons_self
    have := ih h.tail
    rw [List.length_cons]
    omega

/-- Consecutive numbers below a bound form a combination. -/
theorem isCombination_range' {bound start size : Nat} (h : start + size ≤ bound) :
    IsCombination bound (List.range' start size) := by
  refine ⟨List.pairwise_lt_range', fun c hc ↦ ?_⟩
  have := (List.mem_range'_1.mp hc).2
  omega

/-- The first combination is one. -/
theorem isCombination_first {bound size : Nat} (h : size ≤ bound) :
    IsCombination bound (first size) := by
  rw [first, List.range_eq_range']
  exact isCombination_range' (by omega)

private theorem range'_le {bound : Nat} {comb : List Nat} (h : IsCombination bound comb)
    {start : Nat} (hs : ∀ c ∈ comb.head?, start ≤ c) :
    List.range' start comb.length = comb ∨ List.range' start comb.length < comb := by
  induction comb generalizing start with
  | nil => exact .inl rfl
  | cons c rest ih =>
    have hc : start ≤ c := hs c rfl
    have hr : ∀ d ∈ rest.head?, c + 1 ≤ d := fun d hd ↦
      (List.pairwise_cons.mp h.ascending).1 d (List.mem_of_mem_head? hd)
    rw [List.length_cons, List.range'_succ, List.cons_lt_cons_iff]
    rcases Nat.lt_or_eq_of_le hc with hlt | rfl
    · exact .inr (.inl hlt)
    · rcases ih h.tail hr with he | hl
      · exact .inl (by rw [he])
      · exact .inr (.inr ⟨rfl, hl⟩)

/-- No combination of its size comes before the first. -/
theorem first_le {bound : Nat} {comb : List Nat} (h : IsCombination bound comb) :
    first comb.length = comb ∨ first comb.length < comb := by
  rw [first, List.range_eq_range']
  exact range'_le h fun c _ ↦ Nat.zero_le c

/-- A step leads from a combination to a later one. -/
theorem IsCombination.next {bound : Nat} {comb stepped : List Nat} (h : IsCombination bound comb)
    (hn : next? bound comb = some stepped) : IsCombination bound stepped ∧ comb < stepped := by
  fun_induction next? bound comb generalizing stepped with
  | case1 => cases hn
  | case2 c rest next hr ih =>
    cases hn
    obtain ⟨hc, hlt⟩ := ih h.tail hr
    refine ⟨⟨List.pairwise_cons.mpr ⟨?_, hc.ascending⟩, ?_⟩,
      List.cons_lt_cons_iff.mpr (.inr ⟨rfl, hlt⟩)⟩
    · intro d hd
      cases rest with
      | nil => cases hr
      | cons r rest =>
        -- the head of the later list is not below the head of the earlier one
        cases next with
        | nil => cases hd
        | cons n next =>
          have hcr := (List.pairwise_cons.mp h.ascending).1 r List.mem_cons_self
          have hrn : r ≤ n := by
            rcases List.cons_lt_cons_iff.mp hlt with hl | ⟨rfl, _⟩
            · exact Nat.le_of_lt hl
            · exact Nat.le_refl r
          rcases List.mem_cons.mp hd with rfl | hd
          · omega
          · have := (List.pairwise_cons.mp hc.ascending).1 d hd
            omega
    · intro d hd
      rcases List.mem_cons.mp hd with rfl | hd
      · exact h.below d List.mem_cons_self
      · exact hc.below d hd
  | case3 c rest _ hlt _ =>
    cases hn
    refine ⟨isCombination_range' (by omega), ?_⟩
    rw [List.range'_succ, List.cons_lt_cons_iff]
    exact .inl (Nat.lt_succ_self c)
  | case4 => cases hn

/-- A step leads no further than to any later combination of the same size. -/
theorem IsCombination.exists_next {bound : Nat} {comb other : List Nat}
    (ho : IsCombination bound other) (hl : other.length = comb.length) (hlt : comb < other) :
    ∃ stepped, next? bound comb = some stepped ∧ (stepped = other ∨ stepped < other) := by
  induction comb generalizing other with
  | nil =>
    obtain rfl := List.length_eq_zero_iff.mp hl
    exact (List.lt_irrefl _ hlt).elim
  | cons c rest ih =>
    cases other with
    | nil => cases hl
    | cons d others =>
      rw [List.length_cons, List.length_cons, Nat.succ_inj] at hl
      rw [next?]
      rcases List.cons_lt_cons_iff.mp hlt with hcd | ⟨rfl, hr⟩
      · cases hn : next? bound rest with
        | some stepped =>
          exact ⟨_, rfl, .inr (List.cons_lt_cons_iff.mpr (.inl hcd))⟩
        | none =>
          have := ho.add_length_lt
          refine ⟨List.range' (c + 1) (rest.length + 1), if_pos (by omega), ?_⟩
          rw [← hl, ← List.length_cons (a := d)]
          exact range'_le ho fun e he ↦ by cases he; exact hcd
      · obtain ⟨stepped, hn, hle⟩ := ih ho.tail hl hr
        rw [hn]
        refine ⟨c :: stepped, rfl, ?_⟩
        rcases hle with rfl | hle
        · exact .inl rfl
        · exact .inr (List.cons_lt_cons_iff.mpr (.inr ⟨rfl, hle⟩))

/-- The steps from a combination on are the later combinations of its size. -/
theorem mem_stepsFrom_iff {bound : Nat} {comb other : List Nat} (h : IsCombination bound comb) :
    other ∈ stepsFrom bound comb ↔
      IsCombination bound other ∧ other.length = comb.length ∧ (comb = other ∨ comb < other) := by
  fun_induction stepsFrom bound comb with
  | case1 comb stepped hn ih =>
    obtain ⟨hs, hlt⟩ := h.next hn
    rw [List.mem_cons, ih hs, length_of_next? hn]
    constructor
    · rintro (rfl | ⟨ho, hl, rfl | hlo⟩)
      · exact ⟨h, rfl, .inl rfl⟩
      · exact ⟨ho, hl, .inr hlt⟩
      · exact ⟨ho, hl, .inr (List.lt_trans hlt hlo)⟩
    · rintro ⟨ho, hl, rfl | hlo⟩
      · exact .inl rfl
      · obtain ⟨next, hn', hle⟩ := ho.exists_next hl hlo
        obtain rfl : stepped = next := Option.some.inj (hn.symm.trans hn')
        exact .inr ⟨ho, hl, hle⟩
  | case2 comb hn =>
    rw [List.mem_singleton]
    constructor
    · rintro rfl
      exact ⟨h, rfl, .inl rfl⟩
    · rintro ⟨ho, hl, rfl | hlo⟩
      · rfl
      · obtain ⟨next, hn', _⟩ := ho.exists_next hl hlo
        rw [hn] at hn'
        cases hn'

/-- Steps go on in lexicographic order. -/
theorem pairwise_stepsFrom {bound : Nat} {comb : List Nat} (h : IsCombination bound comb) :
    (stepsFrom bound comb).Pairwise (· < ·) := by
  fun_induction stepsFrom bound comb with
  | case1 comb stepped hn ih =>
    obtain ⟨hs, hlt⟩ := h.next hn
    refine List.pairwise_cons.mpr ⟨fun other ho ↦ ?_, ih hs⟩
    rcases ((mem_stepsFrom_iff hs).mp ho).2.2 with rfl | hlo
    · exact hlt
    · exact List.lt_trans hlt hlo
  | case2 => exact List.pairwise_singleton _ _

/-- The steps from the first combination on are all combinations of its size. -/
theorem mem_stepsFrom_first_iff {bound size : Nat} (h : size ≤ bound) {comb : List Nat} :
    comb ∈ stepsFrom bound (first size) ↔ IsCombination bound comb ∧ comb.length = size := by
  have hl : (first size).length = size := List.length_range
  rw [mem_stepsFrom_iff (isCombination_first h), hl]
  constructor
  · exact fun ⟨hc, hs, _⟩ ↦ ⟨hc, hs⟩
  · rintro ⟨hc, rfl⟩
    exact ⟨hc, rfl, first_le hc⟩

/-- Collecting keeps the first steps that have the property. -/
theorem collect_eq (bound : Nat) (keep : List Nat → Bool) (limit : Nat) (comb : List Nat) :
    collect bound keep limit comb = ((stepsFrom bound comb).filter keep).take limit := by
  fun_induction collect bound keep limit comb with
  | case1 => rw [List.take_zero]
  | case2 limit comb hk ih =>
    split
    · next stepped hn =>
      rw [stepsFrom_of_some hn, List.filter_cons_of_pos hk, List.take_succ_cons, ih stepped hn]
    · next hn =>
      rw [stepsFrom_of_none hn, List.filter_cons_of_pos hk, List.take_succ_cons, List.filter_nil,
        List.take_nil]
  | case3 limit comb hk stepped hn ih =>
    rw [stepsFrom_of_some hn, List.filter_cons_of_neg hk, ih]
  | case4 limit comb hk hn =>
    rw [stepsFrom_of_none hn, List.filter_cons_of_neg hk, List.filter_nil, List.take_nil]

end MethodPrint.Combination
