import MethodPrint.Digest
import MethodPrint.Proofs.Analysis.Agreement
import MethodPrint.Proofs.Analysis.Outcome

/-!
# Analyses and features

What an index answers is said by its entries, the identifiers of its methods with their features.
The methods themselves are looked at when a fingerprint is checked, but a predicate that states
features of an indexed method accepts the others by their features alone.
-/

namespace MethodPrint

/-- Whether a method imitates is a matter of its features. -/
theorem IndexedMethod.Imitates.congr {features : List Feature} {a b : IndexedMethod}
    (h : a.features = b.features) (ha : a.Imitates features) : b.Imitates features :=
  ⟨h ▸ ha.carries, h ▸ ha.named, h ▸ ha.differs⟩

namespace Index

/-- The entry at a position. -/
theorem getElem?_entries (index : Index) (position : Nat) :
    index.entries[position]? =
      (index.method? position).map fun entry ↦ (entry.id, entry.features) := by
  rw [entries, List.getElem?_map, Array.getElem?_toList]
  rfl

/-- There are as many methods as entries. -/
theorem length_entries (index : Index) : index.entries.length = index.size := by
  simp [entries, size]

/-- Identifiers are those of the entries. -/
theorem ids_eq_entries (index : Index) (positions : List Nat) :
    index.ids positions =
      positions.filterMap fun position ↦ (index.entries[position]?).map Prod.fst := by
  simp only [ids, getElem?_entries, Option.map_map]
  rfl

/-- Features are those of the entries. -/
theorem features?_eq_entries (index : Index) (id : MethodId) :
    index.features? id =
      (index.position? id).bind fun position ↦ (index.entries[position]?).map Prod.snd := by
  simp only [features?, getElem?_entries, Option.map_map, Option.map_bind]
  rfl

namespace Represents

variable {window otherWindow : Nat} {members others : List Member} {index other : Index}

/-- Positions are those of the entries. -/
theorem position?_iff_entries (h : index.Represents window members) {id : MethodId}
    {position : Nat} :
    index.position? id = some position ↔ (index.entries[position]?).map Prod.fst = some id := by
  rw [h.position?_iff, getElem?_entries, Option.map_map, Option.map_eq_some_iff]
  rfl

/-- Posting lists are those of the entries. -/
theorem lookup_eq_entries (h : index.Represents window members) (feature : Feature) :
    (index.lookup feature).toList =
      (index.entries.zipIdx.filter (feature ∈ ·.1.2)).map Prod.snd := by
  rw [h.lookup_eq, entries, List.zipIdx_map, List.filter_map, List.map_map]
  rfl

/-- Indexes with the same entries find every identifier at the same position. -/
theorem position?_of_entries (h : index.Represents window members)
    (ho : other.Represents otherWindow others) (he : index.entries = other.entries) :
    index.position? = other.position? := by
  funext id
  ext position
  rw [h.position?_iff_entries, ho.position?_iff_entries, he]

/-- Indexes with the same entries are searched alike. -/
theorem ofFeatures_of_entries (h : index.Represents window members)
    (ho : other.Represents otherWindow others) (he : index.entries = other.entries) :
    Search.ofFeatures index = Search.ofFeatures other := by
  have hlookup : index.lookup = other.lookup := by
    funext feature
    rw [← Array.toList_inj, h.lookup_eq_entries, ho.lookup_eq_entries, he]
  funext features
  rw [Search.ofFeatures, Search.ofFeatures, hlookup, ← length_entries, he, length_entries]

/-- Indexes with the same entries solve for every method alike. -/
theorem solve_of_entries (h : index.Represents window members)
    (ho : other.Represents otherWindow others) (he : index.entries = other.entries) :
    index.features? = other.features? ∧ index.solve = other.solve := by
  have hposition := h.position?_of_entries ho he
  have hfeatures : index.features? = other.features? := by
    funext id
    rw [features?_eq_entries, features?_eq_entries, hposition, he]
  have hids : index.ids = other.ids := by
    funext positions
    rw [ids_eq_entries, ids_eq_entries, he]
  refine ⟨hfeatures, ?_⟩
  funext config target cancelled
  rw [solve, solve, hposition, hfeatures, h.ofFeatures_of_entries ho he, hids, ← length_entries, he,
    length_entries]

/-- A predicate that states features of an indexed method accepts the methods by their features. -/
theorem map_id_resolveAll (h : index.Represents window members) {position : Nat}
    {entry : IndexedMethod} (he : index.method? position = some entry) {features : List Feature}
    (hf : features ⊆ entry.features) {predicate : Predicate} (hs : predicate.States features) :
    open Classical in
    (index.resolveAll predicate).map (·.id) =
      (index.entries.filter fun (_, carried) ↦ decide ((∀ f ∈ features, f ∈ carried) ∨
        ∃ entry : IndexedMethod, entry.features = carried ∧ entry.Imitates features)).map
        Prod.fst := by
  classical
  rw [entries, List.filter_map, List.map_map]
  refine congrArg (List.map _) (List.filter_congr fun entry hm ↦ ?_)
  have hm' := (h.mem_resolveAll_iff he hf hs : entry ∈ index.resolveAll predicate ↔ _)
  rw [resolveAll, List.mem_filter, and_congr_right_iff] at hm'
  rw [Bool.eq_iff_iff, hm' hm, Function.comp, decide_eq_true_eq]
  refine or_congr Iff.rfl ⟨fun hi ↦ ⟨entry, rfl, hi⟩, ?_⟩
  rintro ⟨same, hsame, hi⟩
  exact hi.congr hsame

/-- Indexes with the same entries analyse every method alike. -/
theorem analyse_of_entries (h : index.Represents window members)
    (ho : other.Represents otherWindow others) (he : index.entries = other.entries)
    (config : SolverConfig) (target : MethodId) (cancelled : Bool) :
    index.analyse config .language target cancelled =
      other.analyse config .language target cancelled := by
  have hposition := h.position?_of_entries ho he
  obtain ⟨hfeatures, hsolve⟩ := h.solve_of_entries ho he
  refine analyse_congr (congrFun hfeatures target) (by rw [hsolve]) fun sets hs set hset ↦ ?_
  refine renderSet_congr fun text predicate hr ha ↦ List.Perm.of_eq ?_
  cases hp : index.position? target with
  | none =>
    rw [solve_of_position?_eq_none hp] at hs
    cases hs
  | some position =>
    obtain ⟨entry, hentry, rfl⟩ := h.position?_iff.mp hp
    obtain ⟨same, hsame, hid⟩ := ho.position?_iff.mp (hposition ▸ hp)
    have hf := subset_of_distinguishes (h.distinguishes_of_solve hentry hs set hset)
    have hsub : set.features ⊆ same.features := by
      have := congrArg (·[position]?) he
      simp only [getElem?_entries, hentry, hsame, Option.map_some, Option.some.injEq,
        Prod.mk.injEq] at this
      exact this.2 ▸ hf
    obtain ⟨stated, hstated, hstates⟩ := exists_accepted_of_render hr
    obtain rfl : stated = predicate := Evaluation.accepted.inj (hstated.symm.trans ha)
    rw [h.map_id_resolveAll hentry hf hstates, ho.map_id_resolveAll hsame hsub hstates, he]

end Represents

end Index

end MethodPrint
