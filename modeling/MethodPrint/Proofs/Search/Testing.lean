import MethodPrint.Proofs.Search.Solve

/-!
# The quick test of a set

Whether a set of features belongs to the target alone is tested on the lists from the shortest on,
and the test ends once one method is left. The lists of a target of an index all hold it, so that
ending early changes no answer: the test compares the methods that carry the whole set with the
target.
-/

namespace MethodPrint.Index

/-- What the quick test finds of some of a target's features, given by their positions in any order
and with any repetitions. -/
structure QuicklyTested (index : Index) (position : Nat) (features : List Feature)
    (set : List (Fin features.length)) : Prop where
  isUnique_iff : (Search.ofFeatures index features).isUnique (set.map Fin.val) = true ↔
    (Search.ofFeatures index features).ambiguity (set.map Fin.val) = #[position]
  ambiguity_eq : (Search.ofFeatures index features).ambiguity (set.map Fin.val) =
    index.ambiguity (set.map features.get)
  running?_eq_none_iff : (Search.ofFeatures index features).running? (set.map Fin.val) = none ↔
    set = []
  /-- Nothing that the test leaves out would narrow its running intersection further. -/
  eq_ambiguity : ∀ running ∈ (Search.ofFeatures index features).running? (set.map Fin.val),
    running = (Search.ofFeatures index features).ambiguity (set.map Fin.val)
  mem_running : ∀ running ∈ (Search.ofFeatures index features).running? (set.map Fin.val),
    position ∈ running

private theorem filterMap_map_val (features : List Feature) (set : List (Fin features.length)) :
    (set.map Fin.val).filterMap (features[·]?) = set.map features.get := by
  rw [List.filterMap_map, ← List.filterMap_eq_map]
  apply List.filterMap_congr
  intro i _
  exact List.getElem?_eq_getElem i.isLt

/-- The features of an indexed method are tested quickly. -/
theorem Represents.quicklyTested {window : Nat} {members : List Member} {index : Index}
    {position : Nat} {entry : IndexedMethod} (h : index.Represents window members)
    (he : index.method? position = some entry) (set : List (Fin entry.features.length)) :
    index.QuicklyTested position entry.features set := by
  have hh := h.holds_ofFeatures he
  have hr : ∀ i ∈ set.map Fin.val, i < entry.features.length :=
    List.forall_mem_map.mpr fun i _ ↦ i.isLt
  have hs : ∀ i ∈ set.map Fin.val, i < (Search.ofFeatures index entry.features).size := by
    rwa [Search.size_ofFeatures]
  have hambiguity : ∀ running ∈
      (Search.ofFeatures index entry.features).running? (set.map Fin.val),
      running = (Search.ofFeatures index entry.features).ambiguity (set.map Fin.val) := by
    intro running hm
    rw [Search.running?_eq hh hs, Option.mem_def] at hm
    rw [Search.ambiguity, hm, Option.getD_some]
  have hnone : (Search.ofFeatures index entry.features).running? (set.map Fin.val) = none ↔
      set = [] := by
    rw [Search.running?_eq hh hs, Posting.intersectAll?_eq_none_iff]
    simp
  refine ⟨Search.isUnique_iff_ambiguity hh hs, ?_, hnone, hambiguity, ?_⟩
  · rw [Search.ambiguity_ofFeatures index hr, filterMap_map_val]
  · intro running hm
    rw [hambiguity running hm]
    apply hh.target_mem_ambiguity _ hs
    intro hnil
    rw [hnone.mpr (List.map_eq_nil_iff.mp hnil)] at hm
    cases hm

/-- Whatever the members and the target: the quick test finds exactly the sets of features that the
target alone carries, and its running intersection holds the target. -/
theorem quicklyTested_of_build {corpusId : String} {window : Nat} {members : List Member}
    {index : Index} (hb : build corpusId window members = .ok index) {target : MethodId}
    {position : Nat} (hp : index.position? target = some position) {features : List Feature}
    (hf : index.features? target = some features) (set : List (Fin features.length)) :
    index.QuicklyTested position features set := by
  have h := represents_of_build hb
  obtain ⟨place, entry, hplace, he, rfl, rfl⟩ := h.features?_eq_some_iff.mp hf
  obtain rfl : place = position := Option.some.inj (hplace.symm.trans hp)
  exact h.quicklyTested he set

/-- A string and a type, each carried by another method too, belong to one method together. The
string comes twice, and the test ends before the second time. -/
theorem quicklyTested_of_build_repeated :
    let texts : Method :=
      { id := ⟨"LA;->a()V"⟩, returnType := "V",
        instructions := [{ opcode := "const-string", string := some "text" }] }
    let plain : Method := { id := ⟨"LA;->b()V"⟩, returnType := "V" }
    let other : Method :=
      { id := ⟨"LA;->c()I"⟩, returnType := "I",
        instructions := [{ opcode := "const-string", string := some "text" }] }
    ∃ index set, build "tested" 0 [.method plain, .method texts, .method other] = .ok index ∧
      index.position? texts.id = some 1 ∧ index.features? texts.id = some (texts.features 0) ∧
      set.map Fin.val = [3, 1, 3] ∧ index.QuicklyTested 1 (texts.features 0) set ∧
      (Search.ofFeatures index (texts.features 0)).isUnique (set.map Fin.val) = true := by
  intro texts plain other
  let members : List Member := [.method plain, .method texts, .method other]
  obtain ⟨index, hb⟩ : ∃ index, build "tested" 0 members = .ok index :=
    exists_build "tested" 0 (by decide) (by decide) (by decide) (by decide)
  have h := represents_of_build hb
  have he : index.method? 1 = some (.ofMethod 0 texts) := h.method?_eq 1
  have hp : index.position? texts.id = some 1 := h.position?_id he
  have hf : index.features? texts.id = some (texts.features 0) :=
    h.features?_eq_some_iff.mpr ⟨1, _, hp, he, rfl, rfl⟩
  let set : List (Fin (texts.features 0).length) :=
    [⟨3, by decide⟩, ⟨1, by decide⟩, ⟨3, by decide⟩]
  have ht := quicklyTested_of_build hb hp hf set
  refine ⟨index, set, hb, hp, hf, rfl, ht, ht.isUnique_iff.mpr ?_⟩
  rw [ht.ambiguity_eq, h.ambiguity_eq (by nofun)]
  decide

end MethodPrint.Index
