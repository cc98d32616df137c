import MethodPrint.Proofs.Search.Outcome

/-!
# Wider windows

A wider window lists more opcodes of each method and changes nothing else. The features that a
narrower window gives still stand first and still lead to the same methods, so that the new ones
can only take twins away.
-/

namespace MethodPrint

/-! ### Features -/

namespace Method

variable {narrow wide : Nat}

/-- A wider window adds features at the end. -/
theorem features_prefix (h : narrow ≤ wide) (method : Method) :
    method.features narrow <+: method.features wide := by
  obtain ⟨more, hm⟩ := List.take_prefix_take_left (l := method.instructions) h
  rw [features, features, List.prefix_append_right_inj, opcodeFeatures, opcodeFeatures]
  apply List.IsPrefix.map
  rw [← hm, List.zipIdx_append]
  exact List.prefix_append _ _

/-- What a narrower window can show of any method is carried under a wider one alike. -/
theorem mem_features_iff_of_le (h : narrow ≤ wide) {method : Method} {feature : Feature}
    (hf : feature ∈ method.features narrow) (other : Method) :
    feature ∈ other.features narrow ↔ feature ∈ other.features wide := by
  by_cases hk : feature.kind = .opcodeAt
  · cases feature <;> cases hk
    next index opcode =>
    have hi : index < narrow := (opcodeAt_mem_features.mp hf).1
    rw [opcodeAt_mem_features, opcodeAt_mem_features, and_iff_right hi, and_iff_right (by omega)]
  · rw [mem_features_iff_metBy hk, mem_features_iff_metBy hk]

/-- Who carries all features of a method under a wider window does so under a narrower one. -/
theorem features_subset_of_le (h : narrow ≤ wide) {method other : Method}
    (hs : ∀ f ∈ method.features wide, f ∈ other.features wide) :
    ∀ f ∈ method.features narrow, f ∈ other.features narrow := by
  intro f hf
  rw [mem_features_iff_of_le h hf]
  exact hs f ((mem_features_iff_of_le h hf method).mp hf)

end Method

/-! ### Building -/

namespace Index

/-- The roll of the same methods under another window. -/
def Roll.refit (window : Nat) (roll : Roll) : Roll :=
  { roll with methods := roll.methods.map fun entry ↦ .ofMethod window entry.method }

private theorem Roll.refit_empty (window : Nat) : Roll.refit window {} = {} := by
  simp [Roll.refit]

private theorem Roll.enter_refit (corpusId : String) (window other : Nat) (roll : Roll)
    (member : Member) :
    (roll.refit window).enter corpusId window member =
      (roll.enter corpusId other member).map (Roll.refit window) := by
  cases member with
  | method method =>
    simp only [Roll.enter, Method.extract]
    cases method.flaw? with
    | some flaw => rfl
    | none =>
      by_cases hs : UInt32.size ≤ roll.methods.size
      · simp [Roll.refit, hs, Except.map]
      · by_cases hc : roll.positions.contains method.id
        · simp [Roll.refit, hs, hc, Except.map]
        · simp [Roll.refit, hs, hc, Except.map, IndexedMethod.ofMethod]
  | field decl => rfl
  | classDecl decl => rfl

/-- Members are entered alike under all windows. -/
theorem Roll.enterAll_refit (corpusId : String) (window other : Nat) (roll : Roll)
    (members : List Member) :
    (roll.refit window).enterAll corpusId window members =
      (roll.enterAll corpusId other members).map (Roll.refit window) := by
  induction members generalizing roll with
  | nil => rfl
  | cons member members ih =>
    rw [Roll.enterAll, Roll.enterAll, List.foldlM_cons, List.foldlM_cons,
      Roll.enter_refit corpusId window other]
    cases roll.enter corpusId other member with
    | error error => rfl
    | ok next => exact ih next

/-- Under another window the same members have an index, or none for the same reason. -/
theorem build_cases (corpusId : String) (window other : Nat) (members : List Member) :
    (∃ error, build corpusId window members = .error error ∧
        build corpusId other members = .error error) ∨
      ∃ index index', build corpusId window members = .ok index ∧
        build corpusId other members = .ok index' := by
  have hr := Roll.enterAll_refit corpusId window other {} members
  rw [Roll.refit_empty] at hr
  cases ho : Roll.enterAll corpusId other {} members with
  | error error =>
    rw [ho] at hr
    exact .inl ⟨error, by rw [build, hr]; rfl, by rw [build, ho]; rfl⟩
  | ok roll =>
    rw [ho] at hr
    have hsize : (roll.refit window).methods.size = roll.methods.size := Array.size_map
    rw [build_of_enterAll hr, build_of_enterAll ho, hsize]
    split
    · exact .inl ⟨_, rfl, rfl⟩
    · exact .inr ⟨_, _, rfl, rfl⟩

/-! ### Two indexes of the same members -/

namespace Represents

variable {narrow wide position : Nat} {members : List Member} {small large : Index}
  {entry : IndexedMethod}

/-- Indexes of the same members list the same methods in the same order. -/
theorem method?_ofMethod (hs : small.Represents narrow members)
    (hl : large.Represents wide members) (he : small.method? position = some entry) :
    large.method? position = some (.ofMethod wide entry.method) := by
  rw [hs.method?_eq, entriesOf, List.getElem?_map] at he
  obtain ⟨method, hm, rfl⟩ := Option.map_eq_some_iff.mp he
  rw [hl.method?_eq, entriesOf, List.getElem?_map, hm]
  rfl

/-- Methods have the same positions under all windows. -/
theorem position?_congr (hs : small.Represents narrow members)
    (hl : large.Represents wide members) (id : MethodId) :
    small.position? id = large.position? id := by
  apply Option.ext
  intro position
  rw [hs.position?_iff, hl.position?_iff]
  constructor
  · rintro ⟨entry, he, rfl⟩
    exact ⟨_, hs.method?_ofMethod hl he, rfl⟩
  · rintro ⟨entry, he, rfl⟩
    exact ⟨_, hl.method?_ofMethod hs he, rfl⟩

/-- Indexes of the same members list as many methods. -/
theorem size_congr (hs : small.Represents narrow members) (hl : large.Represents wide members) :
    small.size = large.size := by
  rw [size, size, ← Array.length_toList, ← Array.length_toList, hs.methods_eq, hl.methods_eq,
    entriesOf, entriesOf, List.length_map, List.length_map]

/-- Features that a narrower window gives lead to the same methods under a wider one. -/
theorem ambiguity_of_le (h : narrow ≤ wide) (hs : small.Represents narrow members)
    (hl : large.Represents wide members) {features : List Feature}
    (hf : ∀ f ∈ features, ∃ entry ∈ small.methods.toList, f ∈ entry.features) :
    small.ambiguity features = large.ambiguity features := by
  have hmem (method : Method) {f : Feature} (hm : f ∈ features) :
      f ∈ method.features narrow ↔ f ∈ method.features wide := by
    obtain ⟨entry, he, hc⟩ := hf f hm
    obtain ⟨place, hp⟩ := mem_methods_iff.mp he
    rw [hs.features_eq hp] at hc
    exact Method.mem_features_iff_of_le h hc method
  apply (hs.ascending_ambiguity features).ext (hl.ascending_ambiguity features)
  intro position
  rw [hs.mem_ambiguity, hl.mem_ambiguity, hs.size_congr hl, and_congr_right_iff]
  intro _
  constructor
  · rintro ⟨entry, he, hc⟩
    refine ⟨_, hs.method?_ofMethod hl he, fun f hm ↦ (hmem entry.method hm).mp ?_⟩
    rw [← hs.features_eq he]
    exact hc f hm
  · rintro ⟨entry, he, hc⟩
    refine ⟨_, hl.method?_ofMethod hs he, fun f hm ↦ (hmem entry.method hm).mpr ?_⟩
    rw [← hl.features_eq he]
    exact hc f hm

/-- Twins under a wider window are twins under a narrower one, in the same order. -/
theorem twins_sublist_of_le (h : narrow ≤ wide) (hs : small.Represents narrow members)
    (hl : large.Represents wide members) (target : MethodId) (method : Method) :
    (large.twins target (method.features wide)).Sublist
      (small.twins target (method.features narrow)) := by
  rw [twins, twins, hl.methods_eq, hs.methods_eq, entriesOf, entriesOf, List.filter_map,
    List.filter_map, List.map_map, List.map_map]
  apply List.Sublist.map
  apply List.monotone_filter_right
  intro other ho
  simp only [Function.comp_apply, decide_eq_true_eq] at ho ⊢
  exact ⟨ho.1, Method.features_subset_of_le h ho.2⟩

/-- The features of an identifier are those of one method under both windows. -/
theorem exists_features?_eq (hs : small.Represents narrow members)
    (hl : large.Represents wide members) {id : MethodId} {features : List Feature}
    (hf : small.features? id = some features) :
    ∃ method : Method, features = method.features narrow ∧
      large.features? id = some (method.features wide) := by
  obtain ⟨position, entry, _, he, rfl, rfl⟩ := hs.features?_eq_some_iff.mp hf
  have hw := hs.method?_ofMethod hl he
  have hp := hl.position?_id hw
  exact ⟨entry.method, hs.features_eq he,
    hl.features?_eq_some_iff.mpr ⟨position, _, hp, hw, rfl, rfl⟩⟩

end Represents

/-- What an index of some members has beyond one with a narrower window. -/
structure Widened (small large : Index) : Prop where
  positions : ∀ id, small.position? id = large.position? id
  features : ∀ id features, small.features? id = some features →
    ∃ more, large.features? id = some (features ++ more)
  ambiguity : ∀ features,
    (∀ f ∈ features, ∃ entry ∈ small.methods.toList, f ∈ entry.features) →
      small.ambiguity features = large.ambiguity features
  twins : ∀ id features more, small.features? id = some features →
    large.features? id = some more → (large.twins id more).Sublist (small.twins id features)
  /-- What is said to have twins in the large index has these and maybe more in the small one, so
  that whatever can be told apart there is told apart in the large index as well. -/
  reported : ∀ config cancelled target id twins,
    large.solve config target cancelled = .error (.noDistinguishingSet id twins) →
      id = target ∧ ∀ config cancelled, ∃ others,
        small.solve config target cancelled = .error (.noDistinguishingSet target others) ∧
          twins.Sublist others

/-- What is reported to have twins under a wider window has these under a narrower one. -/
theorem Represents.reported_of_le {narrow wide : Nat} (h : narrow ≤ wide) {members : List Member}
    {small large : Index} (hs : small.Represents narrow members)
    (hl : large.Represents wide members) {config : SolverConfig} {cancelled : Bool}
    {target id : MethodId} {twins : List MethodId}
    (ht : large.solve config target cancelled = .error (.noDistinguishingSet id twins)) :
    id = target ∧ ∀ config cancelled, ∃ others,
      small.solve config target cancelled = .error (.noDistinguishingSet target others) ∧
        twins.Sublist others := by
  cases hp : large.position? target with
  | none =>
    rw [solve_of_position?_eq_none hp] at ht
    cases ht
  | some position =>
    obtain ⟨entry, he, rfl⟩ := hl.position?_iff.mp hp
    have hend := hl.ending_of_solve he config cancelled
    have hsmall := hl.method?_ofMethod hs he
    have hsub := hs.twins_sublist_of_le h hl entry.id entry.method
    rw [← hl.features_eq he] at hsub
    refine ⟨(hend.twins id twins ht).1, fun config cancelled ↦ ?_⟩
    have hsolve := hs.ending_of_solve hsmall config cancelled
    exact ⟨_, hend.eq_noDistinguishingSet_of_sublist hsolve hsub ht⟩

/-- Whatever the members and the windows: under both windows there is an index, or there is none for
one reason; and the index of the wider window has more features and no more twins. -/
theorem widened_of_le (corpusId : String) {narrow wide : Nat} (h : narrow ≤ wide)
    (members : List Member) :
    (∃ error, build corpusId narrow members = .error error ∧
        build corpusId wide members = .error error) ∨
      ∃ small large, build corpusId narrow members = .ok small ∧
        build corpusId wide members = .ok large ∧ Widened small large := by
  rcases build_cases corpusId narrow wide members with herror | ⟨small, large, hs, hl⟩
  · exact .inl herror
  · have hs' := represents_of_build hs
    have hl' := represents_of_build hl
    refine .inr ⟨small, large, hs, hl, hs'.position?_congr hl', ?_, ?_, ?_, ?_⟩
    · intro id features hf
      obtain ⟨method, rfl, hw⟩ := hs'.exists_features?_eq hl' hf
      obtain ⟨more, hm⟩ := method.features_prefix h
      exact ⟨more, by rw [hw, hm]⟩
    · exact fun features ↦ hs'.ambiguity_of_le h hl'
    · intro id features more hf hm
      obtain ⟨method, rfl, hw⟩ := hs'.exists_features?_eq hl' hf
      rw [hw] at hm
      cases hm
      exact hs'.twins_sublist_of_le h hl' id method
    · exact fun config cancelled target id twins ↦ hs'.reported_of_le h hl'

/-- Of two twins a wider window keeps the one with the same first opcode. -/
theorem widened_of_le_twins :
    let nop : Method :=
      { id := ⟨"LA;->a()V"⟩, returnType := "V", instructions := [{ opcode := "nop" }] }
    let same : Method :=
      { id := ⟨"LA;->b()V"⟩, returnType := "V",
        instructions := [{ opcode := "nop" }, { opcode := "return-void" }] }
    let other : Method :=
      { id := ⟨"LA;->c()V"⟩, returnType := "V", instructions := [{ opcode := "return-void" }] }
    let members : List Member := [.method nop, .method same, .method other]
    ∃ small large, 0 ≤ 1 ∧ build "twins" 0 members = .ok small ∧
      build "twins" 1 members = .ok large ∧ Widened small large ∧
      small.twins nop.id (nop.features 0) = [same.id, other.id] ∧
      large.twins nop.id (nop.features 1) = [same.id] := by
  intro nop same other members
  rcases widened_of_le "twins" (Nat.zero_le 1) members with
    ⟨error, hs, _⟩ | ⟨small, large, hs, hl, hw⟩
  · obtain ⟨index, hb⟩ : ∃ index, build "twins" 0 members = .ok index :=
      exists_build "twins" 0 (by decide) (by decide) (by decide) (by decide)
    rw [hs] at hb
    cases hb
  · refine ⟨small, large, Nat.zero_le 1, hs, hl, hw, ?_, ?_⟩
    · rw [twins, (represents_of_build hs).methods_eq]
      decide
    · rw [twins, (represents_of_build hl).methods_eq]
      decide

end Index

end MethodPrint
