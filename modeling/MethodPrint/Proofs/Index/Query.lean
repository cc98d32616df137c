import MethodPrint.Proofs.Index.Build

/-!
# Queries to an index

Positions and identifiers lead to each other, the posting list of a feature has the positions of
the methods that carry it, and the ambiguity of some features those of the methods that carry all.
-/

namespace MethodPrint.Index

/-- The entries at the positions of an index are those of its list of methods. -/
theorem mem_methods_iff {index : Index} {entry : IndexedMethod} :
    entry ∈ index.methods.toList ↔ ∃ position, index.method? position = some entry := by
  rw [Array.mem_toList_iff, Array.mem_iff_getElem?]
  rfl

/-- A position of a method is below the number of methods. -/
theorem lt_size_of_method? {index : Index} {position : Nat} {entry : IndexedMethod}
    (h : index.method? position = some entry) : position < index.size :=
  (Array.getElem?_eq_some_iff.mp h).1

/-- Below the number of methods every position has a method. -/
theorem exists_method? {index : Index} {position : Nat} (h : position < index.size) :
    ∃ entry, index.method? position = some entry := ⟨_, Array.getElem?_eq_getElem h⟩

/-- The positions of some of the methods, in corpus order, are ascending. -/
theorem pairwise_filter_zipIdx {entries : List IndexedMethod}
    (keep : IndexedMethod × Nat → Bool) :
    ((entries.zipIdx.filter keep).map Prod.snd).Pairwise (· < ·) := by
  have hs : (entries.zipIdx.map Prod.snd).Pairwise (· < ·) := by
    rw [List.zipIdx_map_snd]
    exact List.pairwise_lt_range'
  exact hs.sublist (List.filter_sublist.map _)

/-- The identifiers of some of the methods, in corpus order. -/
theorem ids_filter_zipIdx (index : Index) (keep : IndexedMethod × Nat → Bool) :
    index.ids ((index.methods.toList.zipIdx.filter keep).map Prod.snd) =
      (index.methods.toList.zipIdx.filter keep).map (·.1.id) := by
  rw [ids, List.filterMap_map, ← List.filterMap_eq_map]
  apply List.filterMap_congr
  rintro ⟨entry, position⟩ hm
  have hm := List.mem_zipIdx_iff_getElem?.mp (List.mem_filter.mp hm).1
  rw [Array.getElem?_toList] at hm
  simp [method?, hm]

namespace Represents

variable {window : Nat} {members : List Member} {index : Index}

/-- The methods of an index are those of its members in their order. -/
theorem method?_eq (h : index.Represents window members) (position : Nat) :
    index.method? position = (entriesOf window members)[position]? := by
  rw [method?, ← Array.getElem?_toList, h.methods_eq]

/-- Every indexed method comes from the members and has the features that extraction gives. -/
theorem exists_method (h : index.Represents window members) {position : Nat}
    {entry : IndexedMethod} (he : index.method? position = some entry) :
    entry.method ∈ members.filterMap Member.method? ∧
      entry.features = entry.method.features window := by
  have hl := mem_methods_iff.mpr ⟨position, he⟩
  rw [h.methods_eq] at hl
  obtain ⟨method, hm, rfl⟩ := List.mem_map.mp hl
  exact ⟨hm, rfl⟩

/-- Indexed methods have the features that extraction gives. -/
theorem features_eq (h : index.Represents window members) {position : Nat}
    {entry : IndexedMethod} (he : index.method? position = some entry) :
    entry.features = entry.method.features window := (h.exists_method he).2

/-- A method is found under its identifier. -/
theorem position?_id (h : index.Represents window members) {position : Nat}
    {entry : IndexedMethod} (he : index.method? position = some entry) :
    index.position? entry.id = some position := h.position?_iff.mpr ⟨entry, he, rfl⟩

/-- An identifier without a position is that of no indexed method. -/
theorem position?_eq_none_iff (h : index.Represents window members) {id : MethodId} :
    index.position? id = none ↔ ∀ entry ∈ index.methods.toList, entry.id ≠ id := by
  rw [Option.eq_none_iff_forall_ne_some]
  constructor
  · rintro hn entry hm rfl
    obtain ⟨position, he⟩ := mem_methods_iff.mp hm
    exact hn position (h.position?_id he)
  · intro hn position hp
    obtain ⟨entry, he, hid⟩ := h.position?_iff.mp hp
    exact hn entry (mem_methods_iff.mpr ⟨position, he⟩) hid

/-- Different positions have methods with different identifiers. -/
theorem position_inj (h : index.Represents window members) {i j : Nat} {a b : IndexedMethod}
    (ha : index.method? i = some a) (hb : index.method? j = some b) (hi : a.id = b.id) :
    i = j := by
  have hj := h.position?_id hb
  rw [← hi, h.position?_id ha] at hj
  exact Option.some.inj hj

/-- The positions of some of the methods, in corpus order. -/
theorem map_position?_filter (h : index.Represents window members)
    (keep : IndexedMethod → Bool) :
    (index.methods.toList.filter keep).map (index.position? ·.id) =
      ((index.methods.toList.zipIdx.filter (keep ·.1)).map Prod.snd).map some := by
  have hz : index.methods.toList = index.methods.toList.zipIdx.map Prod.fst := by simp
  rw [hz, List.filter_map, ← hz, List.map_map, List.map_map]
  apply List.map_congr_left
  rintro ⟨entry, place⟩ hm
  have hm := List.mem_zipIdx_iff_getElem?.mp (List.mem_filter.mp hm).1
  rw [Array.getElem?_toList] at hm
  exact h.position?_id hm

/-- No two methods have one identifier. -/
theorem nodup_ids (h : index.Represents window members) :
    (index.methods.toList.map (·.id)).Nodup := by
  apply List.Nodup.of_map index.position?
  have hp := h.map_position?_filter fun _ ↦ true
  rw [List.filter_true] at hp
  rw [List.map_map]
  change (index.methods.toList.map (index.position? ·.id)).Nodup
  rw [hp]
  apply List.Nodup.map (Option.some_injective Nat)
  exact (pairwise_filter_zipIdx _).imp Nat.ne_of_lt

/-- The features of an identifier are those of the method at its position. -/
theorem features?_eq_some_iff (h : index.Represents window members) {id : MethodId}
    {features : List Feature} :
    index.features? id = some features ↔
      ∃ position entry, index.position? id = some position ∧
        index.method? position = some entry ∧ entry.id = id ∧ entry.features = features := by
  simp only [features?, Option.map_eq_some_iff, Option.bind_eq_some_iff]
  constructor
  · rintro ⟨entry, ⟨position, hp, he⟩, hf⟩
    obtain ⟨other, ho, hi⟩ := h.position?_iff.mp hp
    obtain rfl : other = entry := Option.some.inj (ho.symm.trans he)
    exact ⟨position, other, hp, he, hi, hf⟩
  · rintro ⟨position, entry, hp, he, _, hf⟩
    exact ⟨entry, ⟨position, hp, he⟩, hf⟩

/-- Exactly the identifiers without a position have no features. -/
theorem features?_eq_none_iff (h : index.Represents window members) {id : MethodId} :
    index.features? id = none ↔ index.position? id = none := by
  cases hp : index.position? id with
  | none => simp [features?, hp]
  | some position =>
    obtain ⟨entry, he, _⟩ := h.position?_iff.mp hp
    simp [features?, hp, he]

/-- Posting lists are ascending. -/
theorem ascending_lookup (h : index.Represents window members) (feature : Feature) :
    (index.lookup feature).Ascending := by
  rw [Posting.Ascending, h.lookup_eq]
  exact pairwise_filter_zipIdx _

/-- A posting list has the positions of the methods that carry the feature. -/
theorem mem_lookup (h : index.Represents window members) {feature : Feature} {position : Nat} :
    position ∈ index.lookup feature ↔
      ∃ entry, index.method? position = some entry ∧ feature ∈ entry.features := by
  rw [← Array.mem_toList_iff, h.lookup_eq]
  simp only [List.mem_map, List.mem_filter, decide_eq_true_eq, Prod.exists, exists_eq_right,
    List.mem_zipIdx_iff_getElem?, Array.getElem?_toList]
  rfl

private theorem ambiguity_spec (h : index.Represents window members) (features : List Feature) :
    (index.ambiguity features).Ascending ∧
      ∀ position, position ∈ index.ambiguity features ↔
        (features = [] → index.size < UInt32.size) ∧
          ∃ entry, index.method? position = some entry ∧ ∀ f ∈ features, f ∈ entry.features := by
  have hl : ∀ list ∈ features.map index.lookup, ∀ position ∈ list, position < index.size := by
    simp only [List.forall_mem_map, h.mem_lookup]
    rintro f _ position ⟨_, he, _⟩
    exact lt_size_of_method? he
  obtain ⟨ha, hm⟩ := Posting.getD_intersectAll?
    (List.forall_mem_map.mpr fun f _ ↦ h.ascending_lookup f) hl h.size_le
  refine ⟨ha, fun position ↦ ?_⟩
  rw [ambiguity, hm, List.map_eq_nil_iff, List.forall_mem_map, and_congr_right_iff]
  intro _
  simp only [h.mem_lookup]
  constructor
  · rintro ⟨hp, hf⟩
    obtain ⟨entry, he⟩ := exists_method? hp
    refine ⟨entry, he, fun f hm ↦ ?_⟩
    obtain ⟨other, ho, hof⟩ := hf f hm
    obtain rfl : other = entry := Option.some.inj (ho.symm.trans he)
    exact hof
  · rintro ⟨entry, he, hf⟩
    exact ⟨lt_size_of_method? he, fun f hm ↦ ⟨entry, he, hf f hm⟩⟩

/-- Ambiguities are ascending. -/
theorem ascending_ambiguity (h : index.Represents window members) (features : List Feature) :
    (index.ambiguity features).Ascending := (ambiguity_spec h features).1

/-- The ambiguity of some features has the positions of the methods that carry all of them, except
that no features have none if there are as many methods as positions. -/
theorem mem_ambiguity (h : index.Represents window members) {features : List Feature}
    {position : Nat} :
    position ∈ index.ambiguity features ↔ (features = [] → index.size < UInt32.size) ∧
      ∃ entry, index.method? position = some entry ∧ ∀ f ∈ features, f ∈ entry.features :=
  (ambiguity_spec h features).2 position

/-- The ambiguity of some features, computed from the members alone. -/
theorem ambiguity_eq (h : index.Represents window members) {features : List Feature}
    (hs : features = [] → index.size < UInt32.size) :
    index.ambiguity features =
      (((entriesOf window members).zipIdx.filter fun (entry, _) ↦
        decide (∀ f ∈ features, f ∈ entry.features)).map Prod.snd).toArray := by
  apply (h.ascending_ambiguity features).ext
  · exact pairwise_filter_zipIdx _
  · intro position
    rw [h.mem_ambiguity, and_iff_right hs, List.mem_toArray]
    simp only [List.mem_map, List.mem_filter, decide_eq_true_eq, Prod.exists, exists_eq_right,
      List.mem_zipIdx_iff_getElem?, h.method?_eq]

/-- Every method has features. -/
theorem features_ne_nil (h : index.Represents window members) {position : Nat}
    {entry : IndexedMethod} (he : index.method? position = some entry) : entry.features ≠ [] := by
  rw [h.features_eq he]
  exact List.cons_ne_nil _ _

/-- The ambiguity of some features of a method is this method alone if no other one carries all of
them. -/
theorem ambiguity_eq_singleton_iff (h : index.Represents window members) {position : Nat}
    {entry : IndexedMethod} (he : index.method? position = some entry) {features : List Feature}
    (hf : ∀ f ∈ features, f ∈ entry.features) :
    index.ambiguity features = #[position] ↔
      ∀ place other, index.method? place = some other → (∀ f ∈ features, f ∈ other.features) →
        place = position := by
  by_cases hs : features = [] → index.size < UInt32.size
  · rw [(h.ascending_ambiguity features).eq_singleton_iff (h.mem_ambiguity.mpr ⟨hs, entry, he, hf⟩)]
    simp only [h.mem_ambiguity, and_iff_right hs, forall_exists_index, and_imp]
  · -- nothing is listed then, but there is another method
    simp only [Classical.not_imp, Nat.not_lt] at hs
    obtain ⟨rfl, hs⟩ := hs
    have hsize : index.size = UInt32.size := Nat.le_antisymm h.size_le hs
    have hone : 1 < index.size := by
      rw [hsize]
      decide
    rw [ambiguity_nil_of_size_eq hsize]
    constructor
    · exact nofun
    · intro hall
      obtain ⟨first, hfirst⟩ := exists_method? h.size_pos
      obtain ⟨second, hsecond⟩ := exists_method? hone
      have h0 := hall 0 first hfirst nofun
      have h1 := hall 1 second hsecond nofun
      omega

end Represents

end MethodPrint.Index
