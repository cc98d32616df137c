import MethodPrint.Proofs.Index.Query

/-!
# An index as a catalogue

Everything that an index answers is said by the members it was built from: its methods and their
features, their positions, the methods that carry a feature and those that carry every one of some
features, and how many different features there are. There is one exception: an index that uses up
all positions has no answer when it is asked for the methods that carry no features in particular.
-/

namespace MethodPrint.Index

/-! ### Features in the corpus -/

private theorem mem_post {position : Nat} {postings : Std.HashMap Feature Posting}
    {features : List Feature} {feature : Feature} :
    feature ∈ post position postings features ↔ feature ∈ postings ∨ feature ∈ features := by
  induction features generalizing postings with
  | nil => simp [post]
  | cons f features ih =>
    rw [post, List.foldl_cons, ← post, ih, Std.HashMap.mem_alter]
    by_cases he : f = feature
    · simp [he]
    · simp [he, Ne.symm he]

private theorem mem_postAll {position : Nat} {postings : Std.HashMap Feature Posting}
    {entries : List IndexedMethod} {feature : Feature} :
    feature ∈ postAll position postings entries ↔
      feature ∈ postings ∨ feature ∈ entries.flatMap (·.features) := by
  induction entries generalizing position postings with
  | nil => simp [postAll]
  | cons entry entries ih =>
    rw [postAll, ih, mem_post, List.flatMap_cons, List.mem_append, or_assoc]

/-- The features with a posting list are those of the methods, so that an index counts the
different features of its methods. -/
theorem countFeatures_of_build {corpusId : String} {window : Nat} {members : List Member}
    {index : Index} (h : build corpusId window members = .ok index) :
    index.countFeatures = (index.methods.toList.flatMap (·.features)).eraseDups.length := by
  have hm (feature : Feature) : feature ∈ index.postings.keys ↔
      feature ∈ (index.methods.toList.flatMap (·.features)).eraseDups := by
    obtain ⟨roll, _, _, rfl⟩ := exists_roll_of_build h
    rw [Std.HashMap.mem_keys, mem_postAll, List.mem_eraseDups]
    simp
  have hp := (List.perm_ext_iff_of_nodup Std.HashMap.nodup_keys (nodup_eraseDups _)).mpr hm
  rw [countFeatures, ← Std.HashMap.length_keys, hp.length_eq]

/-! ### The catalogue -/

/-- What an index answers when it catalogues the methods of some members. -/
structure Catalogues (window : Nat) (members : List Member) (index : Index) : Prop where
  methods_eq : index.methods.toList.map (·.method) = members.filterMap Member.method?
  extracted : ∀ entry ∈ index.methods.toList, entry.method.extract window = .ok entry.features
  size_add_skipped : index.size + index.skipped = members.length
  size_le : index.size ≤ UInt32.size
  position?_method? : ∀ position < index.size, ∃ entry,
    index.method? position = some entry ∧ index.position? entry.id = some position
  method?_position? : ∀ id position, index.position? id = some position →
    position < index.size ∧ (index.method? position).map (·.id) = some id
  features?_iff : ∀ id features, index.features? id = some features ↔
    ∃ method ∈ members.filterMap Member.method?,
      method.id = id ∧ method.extract window = .ok features
  ascending_lookup : ∀ feature, (index.lookup feature).Ascending
  mem_lookup_iff : ∀ feature position, position ∈ index.lookup feature ↔
    ∃ entry, index.method? position = some entry ∧ feature ∈ entry.features
  countFeatures_eq :
    index.countFeatures = (index.methods.toList.flatMap (·.features)).eraseDups.length
  ascending_ambiguity : ∀ features, (index.ambiguity features).Ascending
  mem_ambiguity_iff : ∀ features position, position ∈ index.ambiguity features ↔
    (features = [] → index.size < UInt32.size) ∧
      ∃ entry, index.method? position = some entry ∧ ∀ f ∈ features, f ∈ entry.features
  ambiguity_nil : index.size < UInt32.size → index.ambiguity [] = Array.range index.size
  /-- The number of methods is not one of 32 bits then. -/
  ambiguity_nil_of_full : index.size = UInt32.size → index.ambiguity [] = #[]

namespace Represents

variable {window : Nat} {members : List Member} {index : Index}

/-- The methods of an index are the methods among the members, in their order. -/
theorem map_method (h : index.Represents window members) :
    index.methods.toList.map (·.method) = members.filterMap Member.method? := by
  rw [h.methods_eq, entriesOf, List.map_map]
  apply List.map_id''
  exact fun _ ↦ rfl

/-- Every indexed method has the features that its extraction gives. -/
theorem extract_eq (h : index.Represents window members) {entry : IndexedMethod}
    (he : entry ∈ index.methods.toList) :
    entry.method.extract window = .ok entry.features := by
  obtain ⟨position, hp⟩ := mem_methods_iff.mp he
  obtain ⟨hm, hf⟩ := h.exists_method hp
  rw [Method.extract_eq_ok_iff]
  exact ⟨h.flawless _ hm, hf.symm⟩

/-- Looking up an identifier gives the extraction of the method that has it. -/
theorem features?_iff_extract (h : index.Represents window members) {id : MethodId}
    {features : List Feature} :
    index.features? id = some features ↔
      ∃ method ∈ members.filterMap Member.method?,
        method.id = id ∧ method.extract window = .ok features := by
  rw [h.features?_eq_some_iff]
  constructor
  · rintro ⟨position, entry, _, he, hid, rfl⟩
    refine ⟨entry.method, (h.exists_method he).1, hid, ?_⟩
    exact h.extract_eq (mem_methods_iff.mpr ⟨position, he⟩)
  · rintro ⟨method, hm, hid, hx⟩
    rw [← h.map_method] at hm
    obtain ⟨entry, hl, rfl⟩ := List.mem_map.mp hm
    obtain ⟨position, he⟩ := mem_methods_iff.mp hl
    have hf : entry.features = features := by
      rw [h.extract_eq hl] at hx
      exact Except.ok.inj hx
    exact ⟨position, entry, h.position?_iff.mpr ⟨entry, he, hid⟩, he, hid, hf⟩

end Represents

/-- A built index catalogues the methods of its members. -/
theorem catalogues_of_build {corpusId : String} {window : Nat} {members : List Member}
    {index : Index} (hb : build corpusId window members = .ok index) :
    index.Catalogues window members := by
  have h := represents_of_build hb
  exact {
    methods_eq := h.map_method
    extracted := fun _ he ↦ h.extract_eq he
    size_add_skipped := h.size_add_skipped
    size_le := h.size_le
    position?_method? := by
      intro position hp
      obtain ⟨entry, he⟩ := exists_method? hp
      exact ⟨entry, he, h.position?_id he⟩
    method?_position? := by
      intro id position hp
      obtain ⟨entry, he, rfl⟩ := h.position?_iff.mp hp
      exact ⟨lt_size_of_method? he, by rw [he, Option.map_some]⟩
    features?_iff := fun _ _ ↦ h.features?_iff_extract
    ascending_lookup := h.ascending_lookup
    mem_lookup_iff := fun _ _ ↦ h.mem_lookup
    countFeatures_eq := countFeatures_of_build hb
    ascending_ambiguity := h.ascending_ambiguity
    mem_ambiguity_iff := fun _ _ ↦ h.mem_ambiguity
    ambiguity_nil := fun hs ↦ by rw [index.ambiguity_nil, Posting.all_of_lt hs]
    ambiguity_nil_of_full := ambiguity_nil_of_size_eq }

/-- The catalogue of two methods that share a string, between members of other kinds. -/
theorem catalogues_of_build_shared :
    let first : Method :=
      { id := ⟨"LA;->a()V"⟩, returnType := "V",
        instructions := [{ opcode := "const-string", string := some "text" }] }
    let second : Method :=
      { id := ⟨"LA;->b()I"⟩, returnType := "I",
        instructions := [{ opcode := "nop" }, { opcode := "const-string", string := some "text" }] }
    let members : List Member :=
      [.field { id := "LA;->f:I", fieldType := "I" }, .method first, .classDecl { id := "LA;" },
        .method second]
    ∃ index, build "shared" 1 members = .ok index ∧ index.Catalogues 1 members ∧
      index.lookup (.stringLiteral "text") = #[0, 1] ∧ index.countFeatures = 7 ∧
      index.ambiguity [.stringLiteral "text", .returnType "I"] = #[1] := by
  intro first second members
  obtain ⟨index, hb⟩ : ∃ index, build "shared" 1 members = .ok index :=
    exists_build "shared" 1 (by decide) (by decide) (by decide) (by decide)
  have h := represents_of_build hb
  refine ⟨index, hb, catalogues_of_build hb, ?_, ?_, ?_⟩
  · rw [← Array.toList_inj, h.lookup_eq, h.methods_eq]
    decide
  · rw [countFeatures_of_build hb, h.methods_eq]
    decide
  · rw [h.ambiguity_eq (by nofun)]
    decide

/-- A corpus of as many methods as there are positions has an index, in which every method carries
all of no features, but no method is listed as such. -/
theorem ambiguity_nil_crowd :
    ∃ index, build "crowd" 0 (crowd UInt32.size) = .ok index ∧ index.size = UInt32.size ∧
      index.ambiguity [] = #[] ∧ index.ambiguity [] ≠ Array.range index.size ∧
      ¬∀ features position, position ∈ index.ambiguity features ↔
        ∃ entry, index.method? position = some entry ∧ ∀ f ∈ features, f ∈ entry.features := by
  have hlength := length_crowd UInt32.size
  have hpos : 0 < UInt32.size := by decide
  obtain ⟨index, hb⟩ : ∃ index, build "crowd" 0 (crowd UInt32.size) = .ok index := by
    apply exists_build "crowd" 0 _ flaw?_of_mem_crowd (Nat.le_of_eq hlength) (nodup_ids_crowd _)
    rw [← List.length_pos_iff, hlength]
    exact hpos
  have h := represents_of_build hb
  have hsize : index.size = UInt32.size := by
    rw [size, ← Array.length_toList, h.methods_eq, entriesOf, List.length_map, hlength]
  have hnil := ambiguity_nil_of_size_eq hsize
  refine ⟨index, hb, hsize, hnil, ?_, ?_⟩
  · intro he
    have hz : (#[] : Posting).size = index.size := by rw [← hnil, he, Array.size_range]
    rw [← hz] at hsize
    cases hsize
  · intro hall
    obtain ⟨entry, he⟩ := exists_method? (hsize ▸ hpos)
    have hm := (hall [] 0).mpr ⟨entry, he, List.forall_mem_nil _⟩
    rw [hnil] at hm
    exact Array.not_mem_empty _ hm

end MethodPrint.Index
