import MethodPrint.Proofs.Index.Catalogue
import MethodPrint.Proofs.Search.Counting
import MethodPrint.Proofs.Search.Outcome

/-!
# Corpora in another order

Indexes of the same methods in any order give every set of features as many methods, and so their
searches find the same sets. Only the order in which twins are named follows the corpus.
-/

namespace MethodPrint

/-- Results that are the same, or name the same twins of a method in any order. -/
def UpToTwins {α : Type} (a b : Except FingerprintError α) : Prop :=
  a = b ∨ ∃ method twins others, twins.Perm others ∧
    a = .error (.noDistinguishingSet method twins) ∧
    b = .error (.noDistinguishingSet method others)

namespace Index

/-- Features with as many methods in one index as in another are searched alike. -/
theorem sameCounts_ofFeatures {a b : Index} {features : List Feature}
    (h : ∀ some ⊆ features, (a.ambiguity some).size = (b.ambiguity some).size) :
    (Search.ofFeatures a features).SameCounts (Search.ofFeatures b features) where
  size_eq := by rw [Search.size_ofFeatures, Search.size_ofFeatures]
  count_eq set hs := by
    rw [Search.size_ofFeatures] at hs
    rw [Search.count, Search.count, Search.ambiguity_ofFeatures a hs,
      Search.ambiguity_ofFeatures b hs]
    apply h
    intro f hf
    obtain ⟨i, _, hi⟩ := List.mem_filterMap.mp hf
    exact List.mem_of_getElem? hi

/-- Indexes of the same methods in any order are of one size. -/
theorem size_of_perm {a b : Index} (h : a.methods.toList.Perm b.methods.toList) :
    a.size = b.size := by
  simpa [size] using h.length_eq

namespace Represents

variable {window : Nat} {members others : List Member} {index reordered : Index}

/-- Members with the same methods in any order have the same entries in any order. -/
theorem perm_methods (h : index.Represents window members)
    (hr : reordered.Represents window others)
    (hp : (members.filterMap Member.method?).Perm (others.filterMap Member.method?)) :
    index.methods.toList.Perm reordered.methods.toList := by
  rw [h.methods_eq, hr.methods_eq]
  exact hp.map _

/-- The size of an ambiguity counts the methods that carry all of the features. -/
theorem size_ambiguity (h : index.Represents window members) {features : List Feature}
    (hne : features ≠ []) :
    (index.ambiguity features).size =
      index.methods.toList.countP fun entry ↦ decide (∀ f ∈ features, f ∈ entry.features) := by
  have hz : index.methods.toList = index.methods.toList.zipIdx.map Prod.fst := by simp
  rw [h.ambiguity_eq fun hnil ↦ absurd hnil hne, ← h.methods_eq, List.size_toArray, List.length_map,
    ← List.countP_eq_length_filter, hz, List.countP_map, ← hz]
  rfl

/-- An identifier has the same features in any order. -/
theorem features?_of_perm (h : index.Represents window members)
    (hr : reordered.Represents window others)
    (hp : (members.filterMap Member.method?).Perm (others.filterMap Member.method?))
    (target : MethodId) : index.features? target = reordered.features? target := by
  ext features
  simp only [h.features?_iff_extract, hr.features?_iff_extract, hp.mem_iff]

/-- A search has the same counts in any order. -/
theorem sameCounts_of_perm (h : index.Represents window members)
    (hr : reordered.Represents window others)
    (hp : index.methods.toList.Perm reordered.methods.toList) (features : List Feature) :
    (Search.ofFeatures index features).SameCounts (Search.ofFeatures reordered features) := by
  apply sameCounts_ofFeatures
  intro some _
  cases some with
  | nil => rw [ambiguity_nil, ambiguity_nil, size_of_perm hp]
  | cons first more =>
    have hne := List.cons_ne_nil first more
    rw [h.size_ambiguity hne, hr.size_ambiguity hne, hp.countP_eq]

/-- Solving finds the same sets in any order, and the same twins in another order. -/
theorem solve_of_perm (h : index.Represents window members)
    (hr : reordered.Represents window others)
    (hp : (members.filterMap Member.method?).Perm (others.filterMap Member.method?))
    (config : SolverConfig) (target : MethodId) (cancelled : Bool) :
    UpToTwins (index.solve config target cancelled) (reordered.solve config target cancelled) := by
  have hm := h.perm_methods hr hp
  cases ht : index.position? target with
  | none =>
    have hn : reordered.position? target = none := by
      rw [← hr.features?_eq_none_iff, ← h.features?_of_perm hr hp, h.features?_eq_none_iff, ht]
    rw [solve_of_position?_eq_none ht, solve_of_position?_eq_none hn]
    exact .inl rfl
  | some position =>
    obtain ⟨entry, he, rfl⟩ := h.position?_iff.mp ht
    obtain ⟨place, ho⟩ := mem_methods_iff.mp (hm.mem_iff.mp (mem_methods_iff.mpr ⟨position, he⟩))
    have htwin : index.HasTwin entry.id entry.features ↔
        reordered.HasTwin entry.id entry.features := by
      simp only [HasTwin, hm.mem_iff]
    rw [h.solve_eq he, hr.solve_eq ho]
    by_cases hh : index.HasTwin entry.id entry.features
    · rw [if_neg fun ha ↦ (h.ambiguity_features_iff he).mp ha hh,
        if_neg fun ha ↦ (hr.ambiguity_features_iff ho).mp ha (htwin.mp hh),
        h.ids_ambiguity_features he, hr.ids_ambiguity_features ho]
      exact .inr ⟨entry.id, _, _, (hm.filter _).map _, rfl, rfl⟩
    · have hfinds := (h.sameCounts_of_perm hr hm entry.features).finds_eq
        (h.holds_ofFeatures he) (hr.holds_ofFeatures ho) config
      rw [if_pos ((h.ambiguity_features_iff he).mpr hh),
        if_pos ((hr.ambiguity_features_iff ho).mpr fun ht ↦ hh (htwin.mpr ht)), size_of_perm hm,
        hfinds]
      exact .inl rfl

end Represents

end Index

end MethodPrint
