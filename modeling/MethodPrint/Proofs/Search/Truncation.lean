import MethodPrint.Proofs.Search.Distinguishing
import MethodPrint.Proofs.Search.Finds

/-!
# Asking for fewer sets

How many sets are asked for ends an exhaustive search early and cuts off the finds of all
strategies. Both together have the effect of cutting off a longer solution.
-/

namespace MethodPrint

namespace SolverConfig

variable {search : Search} {target : Nat} {few many : SolverConfig}

private theorem exhaustiveFinds_eq_take {size : Nat} (hs : search.IsSmallest size)
    (hlimit : few.limit ≤ many.limit) (hl : few.exhaustiveLimit = many.exhaustiveLimit)
    (hm : few.exhaustiveMaxSize = many.exhaustiveMaxSize) :
    few.exhaustiveFinds search = (many.exhaustiveFinds search).take few.limit := by
  rw [exhaustiveFinds_eq hs, exhaustiveFinds_eq hs, hl, hm]
  split
  · rw [← List.map_take, List.take_take, Nat.min_eq_left hlimit]
  · rw [List.take_nil]

/-- Configurations that differ in nothing but how many sets they ask for find the same sets, one of
them fewer. -/
theorem finds_eq_take (h : search.Holds target) (hi : search.Isolates target search.all)
    (hc : 1 < search.corpusSize) (hlimit : few.limit ≤ many.limit)
    (hl : few.exhaustiveLimit = many.exhaustiveLimit)
    (hm : few.exhaustiveMaxSize = many.exhaustiveMaxSize) :
    few.finds search = (many.finds search).take few.limit := by
  obtain ⟨size, hs⟩ := Search.exists_isSmallest h hi hc
  have he := exhaustiveFinds_eq_take hs hlimit hl hm
  by_cases hroom : (many.exhaustiveFinds search).length ≤ few.limit
  · -- the exhaustive search is not ended early, and all that is left is to cut off
    rw [List.take_of_length_le hroom] at he
    rw [finds, finds, he, List.take_take, Nat.min_eq_left hlimit]
  · -- the exhaustive search has as many sets as asked for, and greedy ones are not reached
    obtain ⟨rest, hf, hlen, _⟩ := few.exists_finds_eq_append h hi hc
    obtain ⟨more, hmany, _⟩ := many.exists_finds_eq_append h hi hc
    rw [he, List.length_take] at hlen
    obtain rfl : rest = [] := List.length_eq_zero_iff.mp (by omega)
    rw [hf, hmany, he, List.append_nil, List.take_append_of_le_length (by omega)]

end SolverConfig

namespace Index

namespace Represents

variable {window : Nat} {members : List Member} {index : Index} {position : Nat}
  {entry : IndexedMethod} {few many : SolverConfig}

/-- A solution of which less is asked is the start of one of which more is asked. -/
theorem solve_eq_map_take (h : index.Represents window members)
    (he : index.method? position = some entry) (hlimit : few.limit ≤ many.limit)
    (hl : few.exhaustiveLimit = many.exhaustiveLimit)
    (hm : few.exhaustiveMaxSize = many.exhaustiveMaxSize) (cancelled : Bool) :
    index.solve few entry.id cancelled =
      (index.solve many entry.id cancelled).map (·.take few.limit) := by
  rw [h.solve_eq he, h.solve_eq he]
  by_cases ha : index.ambiguity entry.features = #[position]
  · rw [if_pos ha, if_pos ha]
    by_cases h1 : index.size = 1
    · rw [if_pos h1, if_pos h1, Except.map, List.take_of_length_le few.limit_pos]
    · rw [if_neg h1, if_neg h1]
      cases cancelled with
      | true => rfl
      | false =>
        have hpos := h.size_pos
        have hf := SolverConfig.finds_eq_take (h.holds_ofFeatures he) (h.isolates_all he ha)
          (show 1 < index.size by omega) hlimit hl hm
        rw [hf, List.map_take]
        rfl
  · rw [if_neg ha, if_neg ha]
    rfl

end Represents

/-- Whatever the members, the target, the configuration and the moment at which it is abandoned: of
configurations that differ only in how many sets they ask for, the one that asks for fewer gives
the start of what the other gives, or the same error. Asking for none is asking for one. -/
theorem solve_maxSets {corpusId : String} {window : Nat} {members : List Member} {index : Index}
    (hb : build corpusId window members = .ok index) (config : SolverConfig) (target : MethodId)
    (cancelled : Bool) {few many : Nat} (h1 : 1 ≤ few) (hle : few ≤ many) :
    index.solve { config with maxSets := few } target cancelled =
        (index.solve { config with maxSets := many } target cancelled).map (·.take few) ∧
      index.solve { config with maxSets := 0 } target cancelled =
        index.solve { config with maxSets := 1 } target cancelled := by
  refine ⟨?_, rfl⟩
  have h := represents_of_build hb
  cases hp : index.position? target with
  | none =>
    rw [solve_of_position?_eq_none hp, solve_of_position?_eq_none hp]
    rfl
  | some position =>
    obtain ⟨entry, he, rfl⟩ := h.position?_iff.mp hp
    have hfew : ({ config with maxSets := few } : SolverConfig).limit = few := Nat.max_eq_left h1
    have hmany : ({ config with maxSets := many } : SolverConfig).limit = many :=
      Nat.max_eq_left (Nat.le_trans h1 hle)
    have hlimit : ({ config with maxSets := few } : SolverConfig).limit ≤
        ({ config with maxSets := many } : SolverConfig).limit := by
      rw [hfew, hmany]
      exact hle
    rw [h.solve_eq_map_take he hlimit rfl rfl, hfew]

/-- Of the sets that tell a method with a string of its own and a return type of its own apart, one
is kept if one is asked for. -/
theorem solve_maxSets_one :
    let target : Method :=
      { id := ⟨"LA;->a()V"⟩, returnType := "V",
        instructions := [{ opcode := "const-string", string := some "text" }] }
    let other : Method := { id := ⟨"LA;->b()I"⟩, returnType := "I" }
    ∃ index, build "choice" 0 [.method target, .method other] = .ok index ∧ 1 ≤ 1 ∧ 1 ≤ 2 ∧
      index.solve { maxSets := 1 } target.id false =
        (index.solve { maxSets := 2 } target.id false).map (·.take 1) ∧
      index.solve { maxSets := 0 } target.id false =
        index.solve { maxSets := 1 } target.id false := by
  intro target other
  obtain ⟨index, hb⟩ : ∃ index, build "choice" 0 [.method target, .method other] = .ok index :=
    exists_build "choice" 0 (by decide) (by decide) (by decide) (by decide)
  have h1 : 1 ≤ 1 := Nat.le_refl 1
  have hle : 1 ≤ 2 := by decide
  exact ⟨index, hb, h1, hle, solve_maxSets hb {} target.id false h1 hle⟩

end Index

end MethodPrint
