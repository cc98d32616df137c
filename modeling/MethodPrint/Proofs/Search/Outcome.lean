import MethodPrint.Proofs.Search.Distinguishing

/-!
# How a search ends

A search for an indexed method has no solution exactly if other methods carry all of its features,
and it then names them. Otherwise it has a solution, unless it is abandoned; a method without any
other beside it is told apart by no features at all.
-/

namespace MethodPrint.Index

/-- Another method carries every feature of a target. -/
def HasTwin (index : Index) (target : MethodId) (features : List Feature) : Prop :=
  ∃ other ∈ index.methods.toList, other.id ≠ target ∧ ∀ f ∈ features, f ∈ other.features

/-- The other methods that carry every feature of a target, in corpus order. -/
def twins (index : Index) (target : MethodId) (features : List Feature) : List MethodId :=
  (index.methods.toList.filter fun other ↦
    decide (other.id ≠ target ∧ ∀ f ∈ features, f ∈ other.features)).map (·.id)

/-- A method has a twin exactly if some are listed. -/
theorem twins_ne_nil_iff {index : Index} {target : MethodId} {features : List Feature} :
    index.twins target features ≠ [] ↔ index.HasTwin target features := by
  simp [twins, HasTwin]

/-- How solving for an indexed target ends. -/
structure Ending (index : Index) (target : MethodId) (features : List Feature) (cancelled : Bool)
    (result : Except FingerprintError (List MinimalSet)) : Prop where
  unsolvable : (∃ id others, result = .error (.noDistinguishingSet id others)) ↔
    index.HasTwin target features
  twins : ∀ id others, result = .error (.noDistinguishingSet id others) →
    id = target ∧ others = index.twins target features ∧ others.Nodup
  alone : ¬index.HasTwin target features → index.size = 1 →
    result = .ok [{ target, indices := [], features := [], strategy := .exhaustive }]
  abandoned : ¬index.HasTwin target features → index.size ≠ 1 → cancelled = true →
    result = .error .cancelled
  solved : ¬index.HasTwin target features → index.size ≠ 1 → cancelled = false →
    ∃ sets, result = .ok sets ∧ sets ≠ []

/-- A target with twins is not solved for, and its twins are named. -/
theorem Ending.eq_noDistinguishingSet {index : Index} {target : MethodId}
    {features : List Feature} {cancelled : Bool}
    {result : Except FingerprintError (List MinimalSet)}
    (h : index.Ending target features cancelled result) (ht : index.HasTwin target features) :
    result = .error (.noDistinguishingSet target (index.twins target features)) := by
  obtain ⟨id, others, ho⟩ := h.unsolvable.mpr ht
  obtain ⟨rfl, rfl, -⟩ := h.twins id others ho
  exact ho

/-- Where a target has all the twins that it has in another index, and maybe more, it is not solved
for if it is not solved for there, and these twins are among those named. -/
theorem Ending.eq_noDistinguishingSet_of_sublist {index other : Index} {target id : MethodId}
    {features more : List Feature} {cancelled cancelled' : Bool} {twins : List MethodId}
    {result result' : Except FingerprintError (List MinimalSet)}
    (h : index.Ending target features cancelled result)
    (ho : other.Ending target more cancelled' result')
    (hs : (index.twins target features).Sublist (other.twins target more))
    (ht : result = .error (.noDistinguishingSet id twins)) :
    result' = .error (.noDistinguishingSet target (other.twins target more)) ∧
      twins.Sublist (other.twins target more) := by
  obtain ⟨rfl, rfl, -⟩ := h.twins id twins ht
  refine ⟨ho.eq_noDistinguishingSet (twins_ne_nil_iff.mp fun hnil ↦ ?_), hs⟩
  apply twins_ne_nil_iff.mpr (h.unsolvable.mp ⟨_, _, ht⟩)
  apply List.eq_nil_of_sublist_nil
  rw [← hnil]
  exact hs

namespace Represents

variable {window : Nat} {members : List Member} {index : Index} {position : Nat}
  {entry : IndexedMethod}

/-- A method has no twin exactly if all its features together have no other method. -/
theorem ambiguity_features_iff (h : index.Represents window members)
    (he : index.method? position = some entry) :
    index.ambiguity entry.features = #[position] ↔ ¬index.HasTwin entry.id entry.features := by
  rw [h.ambiguity_eq_singleton_iff he fun _ hf ↦ hf]
  constructor
  · rintro honly ⟨other, ho, hne, hc⟩
    obtain ⟨place, hp⟩ := mem_methods_iff.mp ho
    obtain rfl := honly place other hp hc
    obtain rfl : other = entry := Option.some.inj (hp.symm.trans he)
    exact hne rfl
  · intro hn place other ho hc
    by_contra hne
    refine hn ⟨other, mem_methods_iff.mpr ⟨place, ho⟩, fun hid ↦ ?_, hc⟩
    exact hne (h.position_inj ho he hid)

/-- The methods besides a method that carry all its features are its twins. -/
theorem ids_ambiguity_features (h : index.Represents window members)
    (he : index.method? position = some entry) :
    index.ids ((index.ambiguity entry.features).toList.filter (· != position)) =
      index.twins entry.id entry.features := by
  have hz : index.methods.toList = index.methods.toList.zipIdx.map Prod.fst := by simp
  rw [h.ambiguity_eq fun hnil ↦ absurd hnil (h.features_ne_nil he), ← h.methods_eq,
    List.filter_map, List.filter_filter, ids_filter_zipIdx, twins, hz, List.filter_map, ← hz,
    List.map_map]
  refine congrArg (List.map _) (List.filter_congr ?_)
  rintro ⟨other, place⟩ hm
  rw [List.mem_zipIdx_iff_getElem?, Array.getElem?_toList] at hm
  -- other places are those of other identifiers
  have hp : place = position ↔ other.id = entry.id := by
    refine ⟨fun heq ↦ ?_, h.position_inj hm he⟩
    subst heq
    obtain rfl : other = entry := Option.some.inj (hm.symm.trans he)
    rfl
  rw [Bool.eq_iff_iff]
  simp [hp]

/-- How solving for an indexed method ends. -/
theorem ending_of_solve (h : index.Represents window members)
    (he : index.method? position = some entry) (config : SolverConfig) (cancelled : Bool) :
    index.Ending entry.id entry.features cancelled
      (index.solve config entry.id cancelled) := by
  by_cases ht : index.HasTwin entry.id entry.features
  · have ha : index.ambiguity entry.features ≠ #[position] :=
      fun ha ↦ (h.ambiguity_features_iff he).mp ha ht
    rw [h.solve_eq he, if_neg ha, h.ids_ambiguity_features he]
    refine ⟨iff_of_true ⟨_, _, rfl⟩ ht, ?_, fun hn ↦ absurd ht hn, fun hn ↦ absurd ht hn,
      fun hn ↦ absurd ht hn⟩
    intro id others ho
    cases ho
    exact ⟨rfl, rfl, h.nodup_ids.sublist (List.filter_sublist.map _)⟩
  · have ha := (h.ambiguity_features_iff he).mpr ht
    have hnone (id : MethodId) (others : List MethodId) :
        index.solve config entry.id cancelled ≠ .error (.noDistinguishingSet id others) := by
      rw [h.solve_eq he, if_pos ha]
      split
      · nofun
      · split <;> nofun
    refine ⟨iff_of_false (fun ⟨id, others, ho⟩ ↦ hnone id others ho) ht,
      fun id others ho ↦ absurd ho (hnone id others), ?_, ?_, ?_⟩
    · intro _ h1
      rw [h.solve_eq he, if_pos ha, if_pos h1]
      rfl
    · intro _ h1 hc
      rw [h.solve_eq he, if_pos ha, if_neg h1, if_pos hc]
    · rintro _ _ rfl
      obtain ⟨sets, hs⟩ := h.exists_solve he ha config
      exact ⟨sets, hs, h.ne_nil_of_solve he hs⟩

end Represents

/-- Whatever the members, the target, the configuration and the moment at which it is abandoned: a
search says that a method is unknown if it is not indexed, and otherwise ends by its twins. -/
theorem ending_of_build {corpusId : String} {window : Nat} {members : List Member} {index : Index}
    (hb : build corpusId window members = .ok index) (config : SolverConfig) (target : MethodId)
    (cancelled : Bool) :
    (∀ id, index.solve config target cancelled = .error (.unknownMethod id) ↔
        id = target ∧ ∀ entry ∈ index.methods.toList, entry.id ≠ target) ∧
      ∀ entry ∈ index.methods.toList, entry.id = target →
        index.Ending target entry.features cancelled (index.solve config target cancelled) := by
  have h := represents_of_build hb
  constructor
  · intro id
    rw [← h.position?_eq_none_iff]
    constructor
    · intro hs
      cases hp : index.position? target with
      | none =>
        rw [solve_of_position?_eq_none hp] at hs
        cases hs
        exact ⟨rfl, rfl⟩
      | some position =>
        obtain ⟨entry, he, rfl⟩ := h.position?_iff.mp hp
        rcases h.eq_of_solve_eq_error he hs with hc | ⟨twins, ht⟩
        · cases hc
        · cases ht
    · rintro ⟨rfl, hn⟩
      exact solve_of_position?_eq_none hn config cancelled
  · rintro entry hm rfl
    obtain ⟨position, he⟩ := mem_methods_iff.mp hm
    exact h.ending_of_solve he config cancelled

/-- A method whose features all belong to two others has these as twins, even when nothing is asked
for and the search is abandoned. -/
theorem ending_of_build_twins :
    let plain : Method := { id := ⟨"LA;->a()V"⟩, returnType := "V" }
    let texts : Method :=
      { id := ⟨"LA;->b()V"⟩, returnType := "V",
        instructions := [{ opcode := "const-string", string := some "text" }] }
    let other : Method := { id := ⟨"LA;->c()I"⟩, returnType := "I" }
    let same : Method := { id := ⟨"LA;->d()V"⟩, returnType := "V" }
    let config : SolverConfig := { maxSets := 0 }
    ∃ index, build "twins" 0 [.method texts, .method plain, .method other, .method same] =
        .ok index ∧
      (∀ id, index.solve config plain.id true = .error (.unknownMethod id) ↔
        id = plain.id ∧ ∀ entry ∈ index.methods.toList, entry.id ≠ plain.id) ∧
      (∀ entry ∈ index.methods.toList, entry.id = plain.id →
        index.Ending plain.id entry.features true (index.solve config plain.id true)) ∧
      index.solve config plain.id true =
        .error (.noDistinguishingSet plain.id [texts.id, same.id]) := by
  intro plain texts other same config
  let members : List Member := [.method texts, .method plain, .method other, .method same]
  obtain ⟨index, hb⟩ : ∃ index, build "twins" 0 members = .ok index :=
    exists_build "twins" 0 (by decide) (by decide) (by decide) (by decide)
  have h := represents_of_build hb
  have hm : IndexedMethod.ofMethod 0 plain ∈ index.methods.toList :=
    mem_methods_iff.mpr ⟨1, h.method?_eq 1⟩
  have ht : index.twins plain.id (plain.features 0) = [texts.id, same.id] := by
    rw [twins, h.methods_eq]
    decide
  have htwin : index.HasTwin plain.id (plain.features 0) :=
    ⟨.ofMethod 0 texts, mem_methods_iff.mpr ⟨0, h.method?_eq 0⟩, by decide, by decide⟩
  obtain ⟨hunknown, hending⟩ := ending_of_build hb config plain.id true
  have hend := hending _ hm rfl
  obtain ⟨id, others, hs⟩ := hend.unsolvable.mpr htwin
  obtain ⟨rfl, rfl, _⟩ := hend.twins id others hs
  exact ⟨index, hb, hunknown, hending, hs.trans (by rw [← ht]; rfl)⟩

end MethodPrint.Index
