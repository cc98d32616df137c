import Mathlib.Data.List.Chain
import Mathlib.Data.List.Induction
import Mathlib.Data.Nat.PSub
import MethodPrint.Proofs.Search.Combination

/-!
# Enumerating combinations in place

A step can be made in place: the last entry that can grow is looked for from the right, and the
entries after it are written anew. With every subtraction, read and write checked, such a step
never fails, and it leads to the next combination. Steps from the first combination of a size on
therefore visit all of them, each once and in order, and end with the last numbers below the bound.
-/

namespace MethodPrint.Combination

/-! ### Steps in place -/

/-- Writes an entry in place, if there is such a place. -/
def write? (comb : List Nat) (place entry : Nat) : Option (List Nat) :=
  if place < comb.length then some (comb.set place entry) else none

/-- Writes `count` entries after a place in place, each to follow on from the entry before it. -/
def followOn? (place : Nat) : Nat → List Nat → Option (List Nat)
  | 0, comb => some comb
  | count + 1, comb => do
    let before ← comb[place]?
    let written ← write? comb (place + 1) (before + 1)
    followOn? (place + 1) count written

/-- Steps on in place from the last of the first `count` entries that can grow. Says whether there
is one, and leaves the combination as it is if not. The largest entry that a place can have is
counted from the difference of bound and size. -/
def advanceBelow? (bound : Nat) (comb : List Nat) : Nat → Option (List Nat × Bool)
  | 0 => some (comb, false)
  | place + 1 => do
    let entry ← comb[place]?
    let room ← bound.psub comb.length
    if entry < room + place then
      let grown ← write? comb place (entry + 1)
      let stepped ← followOn? place (comb.length - (place + 1)) grown
      some (stepped, true)
    else advanceBelow? bound comb place

/-- The step from a combination in place, none if a subtraction, a read or a write fails. -/
def advance? (bound : Nat) (comb : List Nat) : Option (List Nat × Bool) :=
  advanceBelow? bound comb comb.length

private theorem write?_append (front : List Nat) (c entry : Nat) (rest : List Nat) :
    write? (front ++ c :: rest) front.length entry = some (front ++ entry :: rest) := by
  rw [write?, if_pos (by simp)]
  simp

/-- Writing anew makes consecutive numbers of all entries after a place. -/
theorem followOn?_append (front : List Nat) (c : Nat) (rest : List Nat) :
    followOn? front.length rest.length (front ++ c :: rest) =
      some (front ++ List.range' c (rest.length + 1)) := by
  induction rest generalizing front c with
  | nil => rfl
  | cons d rest ih =>
    have hget : (front ++ c :: d :: rest)[front.length]? = some c := by simp
    have hw := write?_append (front ++ [c]) d (c + 1) rest
    have hf := ih (front ++ [c]) (c + 1)
    simp only [List.length_append, List.length_singleton, List.append_assoc,
      List.singleton_append] at hw hf
    rw [List.length_cons, followOn?, hget, Option.bind_eq_bind, Option.bind_some, hw,
      Option.bind_eq_bind, Option.bind_some, hf, List.range'_succ (s := c)]

/-- What comes before the entries that step on stays as it is. -/
theorem next?_append_of_some {bound : Nat} {rest stepped : List Nat}
    (h : next? bound rest = some stepped) (front : List Nat) :
    next? bound (front ++ rest) = some (front ++ stepped) := by
  induction front with
  | nil => exact h
  | cons c front ih => rw [List.cons_append, next?, ih, List.cons_append]

/-- An entry grows if those after it cannot and there is room for them above it. -/
theorem next?_cons_of_none {bound : Nat} {rest : List Nat} (h : next? bound rest = none)
    (c : Nat) :
    next? bound (c :: rest) =
      if c + rest.length + 1 < bound then some (List.range' (c + 1) (rest.length + 1))
      else none := by
  rw [next?, h]

private theorem advanceBelow?_append {bound : Nat} {front rest : List Nat}
    (hn : next? bound rest = none) (hl : (front ++ rest).length ≤ bound) :
    advanceBelow? bound (front ++ rest) front.length =
      some ((next? bound (front ++ rest)).getD (front ++ rest),
        (next? bound (front ++ rest)).isSome) := by
  induction front using List.reverseRecOn generalizing rest with
  | nil => simp [advanceBelow?, hn]
  | append_singleton front c ih =>
    rw [List.append_assoc, List.singleton_append] at hl ⊢
    have hget : (front ++ c :: rest)[front.length]? = some c := by simp
    have hlen : (front ++ c :: rest).length = front.length + (rest.length + 1) := by simp
    have hcond : c < bound - (front ++ c :: rest).length + front.length ↔
        c + rest.length + 1 < bound := by omega
    have hcount : (front ++ c :: rest).length - (front.length + 1) = rest.length := by omega
    have hcons := next?_cons_of_none hn c
    rw [List.length_append, List.length_singleton, advanceBelow?, hget, Nat.psub_eq_sub hl]
    simp only [Option.bind_eq_bind, Option.bind_some, hcond]
    split at hcons
    · next hc =>
      rw [if_pos hc, write?_append, Option.bind_some, hcount, followOn?_append, Option.bind_some,
        next?_append_of_some hcons, Option.getD_some, Option.isSome_some]
    · next hc => rw [if_neg hc, ih hcons hl]

/-- A step in place never fails where the bound leaves room for the size, and is the step. -/
theorem advance?_eq {bound : Nat} {comb : List Nat} (hl : comb.length ≤ bound) :
    advance? bound comb =
      some ((next? bound comb).getD comb, (next? bound comb).isSome) := by
  have hnil : next? bound [] = none := rfl
  rw [← List.append_nil comb] at hl
  have h := advanceBelow?_append hnil hl
  rwa [List.append_nil] at h

/-! ### From the first to the last -/

/-- Steps start where they are asked to. -/
theorem head?_stepsFrom (bound : Nat) (comb : List Nat) :
    (stepsFrom bound comb).head? = some comb := by
  fun_cases stepsFrom bound comb <;> rfl

/-- Each of the steps leads on from the one before. -/
theorem isChain_stepsFrom (bound : Nat) (comb : List Nat) :
    (stepsFrom bound comb).IsChain fun before after ↦ next? bound before = some after := by
  fun_induction stepsFrom bound comb with
  | case1 comb stepped hn ih =>
    apply List.isChain_cons.mpr ⟨?_, ih⟩
    intro after ha
    rw [head?_stepsFrom] at ha
    cases ha
    exact hn
  | case2 comb hn => exact List.isChain_singleton _

/-- Steps go on until there is no next. -/
theorem exists_getLast?_stepsFrom (bound : Nat) (comb : List Nat) :
    ∃ last, (stepsFrom bound comb).getLast? = some last ∧ next? bound last = none := by
  fun_induction stepsFrom bound comb with
  | case1 comb stepped hn ih =>
    obtain ⟨last, hl, hn⟩ := ih
    refine ⟨last, ?_, hn⟩
    rw [List.getLast?_cons, hl, Option.getD_some]
  | case2 comb hn => exact ⟨comb, rfl, hn⟩

/-- Only the last numbers below the bound have no next combination. -/
theorem IsCombination.eq_range'_of_next?_eq_none {bound : Nat} {comb : List Nat}
    (h : IsCombination bound comb) (hn : next? bound comb = none) :
    comb = List.range' (bound - comb.length) comb.length := by
  induction comb with
  | nil => rfl
  | cons c rest ih =>
    cases hr : next? bound rest with
    | some stepped =>
      have := next?_append_of_some hr [c]
      rw [List.singleton_append, hn] at this
      cases this
    | none =>
      rw [next?_cons_of_none hr] at hn
      have hc : ¬c + rest.length + 1 < bound := by
        intro hlt
        rw [if_pos hlt] at hn
        cases hn
      have hroom := h.add_length_lt
      have hfirst : bound - (rest.length + 1) = c := by omega
      have hsecond : bound - rest.length = c + 1 := by omega
      rw [List.length_cons, List.range'_succ, hfirst, ← hsecond, ← ih h.tail hr]

/-! ### All combinations of a size -/

/-- A way through all combinations of a size: it starts with the first and each step leads on to the
next, until there is none. -/
structure Enumerated (bound size : Nat) (visited : List (List Nat)) : Prop where
  head?_eq : visited.head? = some (List.range size)
  isChain : visited.IsChain fun before after ↦ next? bound before = some after
  getLast?_eq : visited.getLast? = some (List.range' (bound - size) size)
  next?_last : next? bound (List.range' (bound - size) size) = none
  /-- In place, no subtraction, read or write fails on the way. -/
  advance?_eq : ∀ comb ∈ visited,
    advance? bound comb = some ((next? bound comb).getD comb, (next? bound comb).isSome)
  mem_iff : ∀ comb, comb ∈ visited ↔ IsCombination bound comb ∧ comb.length = size
  /-- The order is strict, so that none is visited twice. -/
  ordered : visited.Pairwise (· < ·)
  /-- A search for combinations with a property keeps to this way. -/
  collect_eq : ∀ keep limit,
    collect bound keep limit (first size) = (visited.filter keep).take limit

/-- Whatever the bound and the size: stepping on from the first combination leads through all of
them. -/
theorem enumerated_stepsFrom {bound size : Nat} (h : size ≤ bound) :
    Enumerated bound size (stepsFrom bound (first size)) := by
  have hmem (comb : List Nat) : comb ∈ stepsFrom bound (first size) ↔
      IsCombination bound comb ∧ comb.length = size := mem_stepsFrom_first_iff h
  obtain ⟨last, hlast, hnone⟩ := exists_getLast?_stepsFrom bound (first size)
  obtain ⟨hc, hs⟩ := (hmem last).mp (List.mem_of_getLast? hlast)
  have heq : last = List.range' (bound - size) size := hs ▸ hc.eq_range'_of_next?_eq_none hnone
  rw [heq] at hlast hnone
  refine ⟨head?_stepsFrom _ _, isChain_stepsFrom _ _, hlast, hnone, ?_, hmem,
    pairwise_stepsFrom (isCombination_first h), fun keep limit ↦ collect_eq _ _ _ _⟩
  intro comb hm
  apply advance?_eq
  rw [((hmem comb).mp hm).2]
  exact h

/-- The pairs of numbers below four. -/
theorem enumerated_stepsFrom_pairs :
    2 ≤ 4 ∧ Enumerated 4 2 (stepsFrom 4 (first 2)) ∧
      stepsFrom 4 (first 2) = [[0, 1], [0, 2], [0, 3], [1, 2], [1, 3], [2, 3]] := by
  refine ⟨by decide, enumerated_stepsFrom (by decide), ?_⟩
  simp [stepsFrom, next?, first, List.range, List.range.loop, List.range']

end MethodPrint.Combination
