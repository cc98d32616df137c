import MethodPrint.Proofs.Analysis.Outcome

/-!
# Fingerprints lead back

Every fingerprint of an analysis leads to the analysed method and to no other one. Those of the
distinguishing sets have been checked. The fingerprint of all features has not, but it accepts no
method that one of the others does not accept.
-/

namespace MethodPrint.Index

/-- A predicate leads to a single method if it accepts this one alone. -/
theorem resolveUnique_eq_ok_iff {index : Index} {predicate : Predicate} {entry : IndexedMethod} :
    index.resolveUnique predicate = .ok entry ↔ index.resolveAll predicate = [entry] := by
  rw [resolveUnique]
  cases index.resolveAll predicate with
  | nil => simp only [reduceCtorEq]
  | cons first rest =>
    cases rest with
    | nil => simp
    | cons second rest => simp

namespace Represents

variable {window : Nat} {members : List Member} {index : Index} {position : Nat}
  {entry : IndexedMethod}

/-- Rendered features that belong to no other method, and that none imitates, lead to their method
alone. -/
theorem resolveSource_of_render (h : index.Represents window members)
    (he : index.method? position = some entry) {features : List Feature}
    (hf : features ⊆ entry.features) (ha : index.ambiguity features = #[position])
    (hn : ¬index.HasImitator features) {text : String} (hr : render features = .ok text) :
    index.resolveSource .language text = .ok { method := entry.id, additional := [] } := by
  obtain ⟨predicate, haccepted, hs⟩ := exists_accepted_of_render hr
  rcases h.resolveUnique_cases he hf ha hs with ⟨_, hu⟩ | ⟨hi, _⟩
  · rw [resolveUnique_eq_ok_iff] at hu
    rw [resolveSource, haccepted]
    simp only [hu, List.map_nil]
  · exact absurd hi hn

/-- Only indexed methods are analysed. -/
theorem exists_method?_of_analyse (h : index.Represents window members) {config : SolverConfig}
    {evaluator : Evaluator} {target : MethodId} {cancelled : Bool} {analysis : Analysis}
    (hok : index.analyse config evaluator target cancelled = .ok analysis) :
    ∃ position entry, index.method? position = some entry ∧ entry.id = target := by
  cases hp : index.position? target with
  | none =>
    rw [analyse_of_features?_eq_none (h.features?_eq_none_iff.mpr hp)] at hok
    cases hok
  | some position => exact ⟨position, h.position?_iff.mp hp⟩

private theorem ambiguity_eq_singleton_of_subset (h : index.Represents window members)
    (he : index.method? position = some entry) {features : List Feature}
    (hsub : features ⊆ entry.features) (ha : index.ambiguity features = #[position]) :
    index.ambiguity entry.features = #[position] := by
  rw [h.ambiguity_eq_singleton_iff he hsub] at ha
  rw [h.ambiguity_eq_singleton_iff he fun _ hf ↦ hf]
  exact fun place other ho hall ↦ ha place other ho fun f hf ↦ hall f (hsub hf)

/-- An analysis that succeeds has fingerprints, and each of them, the one of all features as well,
leads to the method alone. -/
theorem resolveSource_of_analyse (h : index.Represents window members) {config : SolverConfig}
    {target : MethodId} {cancelled : Bool} {analysis : Analysis}
    (hok : index.analyse config .language target cancelled = .ok analysis) :
    analysis.fingerprints ≠ [] ∧
      ∀ text ∈ analysis.fullFingerprint :: analysis.fingerprints.map (·.fingerprint),
        index.resolveSource .language text = .ok { method := target, additional := [] } := by
  obtain ⟨position, entry, he, rfl⟩ := h.exists_method?_of_analyse hok
  obtain ⟨sets, hs, hp, hn⟩ := h.exists_solve_of_analyse he hok
  have hd := h.distinguishes_of_solve he hs
  refine ⟨?_, List.forall_mem_cons.mpr ⟨?_, ?_⟩⟩
  · rw [← List.length_pos_iff, ← hp.presents.length_eq, List.length_pos_iff]
    exact h.ne_nil_of_solve he hs
  · -- any one of the sets speaks for all features
    obtain ⟨set, hset⟩ := List.exists_mem_of_ne_nil _ (h.ne_nil_of_solve he hs)
    have hsub := subset_of_distinguishes (hd set hset)
    have ha := (hd set hset).isolates
    have hr : Renderable entry.features := exists_render_iff.mp ⟨_, hp.render_eq⟩
    exact h.resolveSource_of_render he (List.Subset.refl _)
      (h.ambiguity_eq_singleton_of_subset he hsub ha)
      (fun hi ↦ hn set hset (h.hasImitator_of_subset he hr hsub ha hi)) hp.render_eq
  · rw [List.forall_mem_map]
    intro rendered hrendered
    obtain ⟨place, hplace, rfl⟩ := List.mem_iff_getElem.mp hrendered
    have hl : place < sets.length := hp.presents.length_eq ▸ hplace
    have hset := List.getElem_mem hl
    exact h.resolveSource_of_render he (subset_of_distinguishes (hd _ hset)) (hd _ hset).isolates
      (hn _ hset) (hp.presents.get hl hplace).render_eq

end Represents

end MethodPrint.Index
