import MethodPrint.Proofs.Search.Outcome

/-!
# Growing corpora

More methods never make a method easier to tell apart. Its twins in a part of a corpus are twins in
the whole corpus, and features that tell it apart in the whole corpus do so in every part that it
belongs to.
-/

namespace MethodPrint.Index

/-- The entries of fewer members are some of the entries, in the same order. -/
theorem entriesOf_sublist {window : Nat} {members all : List Member} (h : members.Sublist all) :
    (entriesOf window members).Sublist (entriesOf window all) :=
  (h.filterMap Member.method?).map _

section

variable {part whole : Index} {target : MethodId} {features : List Feature}

/-- Twins in a part of a corpus are twins in the corpus, in the same order. -/
theorem twins_sublist (h : part.methods.toList.Sublist whole.methods.toList) :
    (part.twins target features).Sublist (whole.twins target features) :=
  (h.filter _).map _

/-- A method with a twin in a part of a corpus has one in the corpus. -/
theorem HasTwin.mono (h : part.methods.toList.Sublist whole.methods.toList)
    (ht : part.HasTwin target features) : whole.HasTwin target features := by
  obtain ⟨other, ho, hne, hc⟩ := ht
  exact ⟨other, h.subset ho, hne, hc⟩

end

namespace Represents

variable {window : Nat} {members all : List Member} {part whole : Index} {entry : IndexedMethod}
  {position place : Nat}

/-- An index of fewer members lists some of the methods, in the same order. -/
theorem methods_sublist (hp : part.Represents window members) (hw : whole.Represents window all)
    (hs : members.Sublist all) : part.methods.toList.Sublist whole.methods.toList := by
  rw [hp.methods_eq, hw.methods_eq]
  exact entriesOf_sublist hs

/-- A method among the members is indexed with the features that extraction gives. -/
theorem exists_method?_ofMethod (h : part.Represents window members) {method : Method}
    (hm : .method method ∈ members) :
    ∃ position, part.method? position = some (.ofMethod window method) := by
  rw [← mem_methods_iff, h.methods_eq]
  exact List.mem_map_of_mem (List.mem_filterMap.mpr ⟨_, hm, rfl⟩)

/-- Features that belong to one method only in a corpus do so in every part with this method. -/
theorem ambiguity_eq_singleton_of_sublist (hp : part.Represents window members)
    (hw : whole.Represents window all) (hs : part.methods.toList.Sublist whole.methods.toList)
    (he : part.method? position = some entry) (hew : whole.method? place = some entry)
    {features : List Feature} (hf : features ⊆ entry.features)
    (ha : whole.ambiguity features = #[place]) : part.ambiguity features = #[position] := by
  rw [hp.ambiguity_eq_singleton_iff he fun _ hm ↦ hf hm]
  intro spot other ho hc
  -- what shares the features in the part shares them in the whole, and there it is the method
  obtain ⟨site, hsite⟩ := mem_methods_iff.mp (hs.subset (mem_methods_iff.mpr ⟨spot, ho⟩))
  obtain rfl := (hw.ambiguity_eq_singleton_iff hew fun _ hm ↦ hf hm).mp ha site other hsite hc
  obtain rfl : other = entry := Option.some.inj (hsite.symm.trans hew)
  exact hp.position_inj ho he rfl

end Represents

/-- What solving for a target gives in a part of a corpus and in the whole corpus. -/
structure Outgrown (part whole : Index) (target : MethodId) (position : Nat) : Prop where
  twins : ∀ config cancelled id twins,
    part.solve config target cancelled = .error (.noDistinguishingSet id twins) →
      id = target ∧ ∀ config cancelled, ∃ others,
        whole.solve config target cancelled = .error (.noDistinguishingSet target others) ∧
          twins.Sublist others
  isolates : ∀ config cancelled sets, whole.solve config target cancelled = .ok sets →
    ∀ set ∈ sets, part.ambiguity set.features = #[position]

/-- Whatever the members, the part of them, the method in that part and the configurations: where
the part has twins of the method, the whole has them too, and every set that the whole is solved by
belongs to the method alone in the part. -/
theorem outgrown_of_sublist {partId wholeId : String} {window : Nat} {members all : List Member}
    {part whole : Index} (hs : members.Sublist all)
    (hp : build partId window members = .ok part) (hw : build wholeId window all = .ok whole)
    {method : Method} (hm : .method method ∈ members) :
    ∃ position, part.position? method.id = some position ∧
      part.Outgrown whole method.id position := by
  have hp := represents_of_build hp
  have hw := represents_of_build hw
  have hsub := hp.methods_sublist hw hs
  obtain ⟨position, he⟩ := hp.exists_method?_ofMethod hm
  obtain ⟨place, hew⟩ := hw.exists_method?_ofMethod (hs.subset hm)
  refine ⟨position, hp.position?_id he, ?_, ?_⟩
  · intro config cancelled id twins ht
    have hend := hp.ending_of_solve he config cancelled
    obtain ⟨rfl, rfl, -⟩ := hend.twins id twins ht
    have htwin := (hend.unsolvable.mp ⟨_, _, ht⟩).mono hsub
    refine ⟨rfl, fun config cancelled ↦ ⟨_, ?_, twins_sublist hsub⟩⟩
    exact (hw.ending_of_solve hew config cancelled).eq_noDistinguishingSet htwin
  · intro config cancelled sets hsolve set hset
    have hd := hw.distinguishes_of_solve hew hsolve set hset
    exact hp.ambiguity_eq_singleton_of_sublist hw hsub he hew (subset_of_distinguishes hd)
      hd.isolates

/-- A method with one twin, in a corpus that grows by a second one and by a field. -/
theorem outgrown_of_sublist_twins :
    let plain : Method := { id := ⟨"LA;->a()V"⟩, returnType := "V" }
    let texts : Method :=
      { id := ⟨"LA;->b()V"⟩, returnType := "V",
        instructions := [{ opcode := "const-string", string := some "text" }] }
    let same : Method := { id := ⟨"LA;->c()V"⟩, returnType := "V" }
    let members : List Member := [.method plain, .method texts]
    let all : List Member :=
      [.method same, .method plain, .field { id := "LA;->f:I", fieldType := "I" }, .method texts]
    ∃ part whole, members.Sublist all ∧ build "part" 0 members = .ok part ∧
      build "whole" 0 all = .ok whole ∧ .method plain ∈ members ∧
      part.solve {} plain.id false = .error (.noDistinguishingSet plain.id [texts.id]) ∧
      ∃ position, part.position? plain.id = some position ∧
        part.Outgrown whole plain.id position := by
  intro plain texts same members all
  obtain ⟨part, hp⟩ : ∃ part, build "part" 0 members = .ok part :=
    exists_build "part" 0 (by decide) (by decide) (by decide) (by decide)
  obtain ⟨whole, hw⟩ : ∃ whole, build "whole" 0 all = .ok whole :=
    exists_build "whole" 0 (by decide) (by decide) (by decide) (by decide)
  have hs : members.Sublist all := by decide
  have hm : .method plain ∈ members := List.mem_cons_self
  have h := represents_of_build hp
  have ht : part.twins plain.id (plain.features 0) = [texts.id] := by
    rw [twins, h.methods_eq]
    decide
  have hsolve : part.solve {} plain.id false =
      .error (.noDistinguishingSet plain.id [texts.id]) := by
    have he : part.method? 0 = some (.ofMethod 0 plain) := h.method?_eq 0
    have htwin : part.HasTwin plain.id (plain.features 0) :=
      ⟨.ofMethod 0 texts, mem_methods_iff.mpr ⟨1, h.method?_eq 1⟩, by decide, by decide⟩
    rw [← ht]
    exact (h.ending_of_solve he {} false).eq_noDistinguishingSet htwin
  exact ⟨part, whole, hs, hp, hw, hm, hsolve, outgrown_of_sublist hs hp hw hm⟩

end MethodPrint.Index
