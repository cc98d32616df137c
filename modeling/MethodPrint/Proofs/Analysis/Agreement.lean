import MethodPrint.Analysis
import MethodPrint.Proofs.Search.Reordering
import MethodPrint.Proofs.Traversal

/-!
# Analyses that agree

Checking a fingerprint depends on the identifiers of the methods that its predicate accepts, and not
on their order. Where two indexes solve for a method alike and their predicates accept the same
identifiers, they analyse it alike.
-/

namespace MethodPrint.Index

variable {index other : Index} {evaluator : Evaluator}

private theorem message_ambiguousMatch_congr {found others : List MethodId}
    (h : found.length = others.length) :
    (FingerprintError.ambiguousMatch found).message =
      (FingerprintError.ambiguousMatch others).message :=
  congrArg (fun n : Nat ↦ "Predicate is ambiguous: " ++ toString n ++ " methods match") h

private theorem resolveUnique_congr {predicate : Predicate}
    (hp : ((index.resolveAll predicate).map (·.id)).Perm
      ((other.resolveAll predicate).map (·.id))) :
    (∃ entry same, index.resolveUnique predicate = .ok entry ∧
        other.resolveUnique predicate = .ok same ∧ entry.id = same.id) ∨
      ∃ error alike, index.resolveUnique predicate = .error error ∧
        other.resolveUnique predicate = .error alike ∧ error.message = alike.message := by
  have hl := hp.length_eq
  rw [List.length_map, List.length_map] at hl
  simp only [resolveUnique]
  cases hi : index.resolveAll predicate with
  | nil =>
    rw [hi] at hl
    rw [List.eq_nil_of_length_eq_zero hl.symm]
    exact .inr ⟨_, _, rfl, rfl, rfl⟩
  | cons first rest =>
    cases ho : other.resolveAll predicate with
    | nil =>
      rw [hi, ho] at hl
      cases hl
    | cons start more =>
      rw [hi, ho] at hp hl
      cases rest with
      | nil =>
        obtain rfl : more = [] := List.eq_nil_of_length_eq_zero (Nat.succ.inj hl).symm
        exact .inl ⟨first, start, rfl, rfl, by simpa using hp⟩
      | cons second rest =>
        cases more with
        | nil => cases hl
        | cons third more =>
          exact .inr ⟨_, _, rfl, rfl, message_ambiguousMatch_congr hp.length_eq⟩

/-- Predicates that accept the same identifiers check fingerprints alike. -/
theorem verify_congr {text : String} {predicate : Predicate}
    (ha : evaluator text = .accepted predicate)
    (hp : ((index.resolveAll predicate).map (·.id)).Perm
      ((other.resolveAll predicate).map (·.id))) (target : MethodId) :
    index.verify evaluator target text = other.verify evaluator target text := by
  rw [verify, verify, ha]
  rcases resolveUnique_congr hp with ⟨entry, same, hi, ho, hid⟩ | ⟨error, alike, hi, ho, hm⟩
  · simp only [hi, ho, hid]
  · simp only [hi, ho, hm]

/-- Sets whose predicates accept the same identifiers are rendered alike. -/
theorem renderSet_congr {set : MinimalSet}
    (hp : ∀ text predicate, render set.features = .ok text →
      evaluator text = .accepted predicate →
        ((index.resolveAll predicate).map (·.id)).Perm
          ((other.resolveAll predicate).map (·.id))) :
    index.renderSet evaluator set = other.renderSet evaluator set := by
  rw [renderSet, renderSet]
  cases hr : render set.features with
  | error fault => rw [renderFeatures, hr]; rfl
  | ok text =>
    have hv : index.verify evaluator set.target text = other.verify evaluator set.target text := by
      cases ha : evaluator text with
      | accepted predicate => exact verify_congr ha (hp text predicate hr ha) set.target
      | rejected diagnostic => rw [verify, verify, ha]
      | crashed => rw [verify, verify, ha]
    rw [renderFeatures, hr]
    change (do index.verify evaluator set.target text; _) = _
    rw [hv]
    rfl

variable {config : SolverConfig} {target : MethodId} {cancelled : Bool}

/-- Indexes that solve for a method alike and render its sets alike analyse it alike. -/
theorem analyse_congr (hf : index.features? target = other.features? target)
    (hs : index.solve config target cancelled = other.solve config target cancelled)
    (hr : ∀ sets, index.solve config target cancelled = .ok sets → ∀ set ∈ sets,
      index.renderSet evaluator set = other.renderSet evaluator set) :
    index.analyse config evaluator target cancelled =
      other.analyse config evaluator target cancelled := by
  rw [analyse, analyse, ← hf, ← hs]
  cases index.features? target with
  | none => rfl
  | some features =>
    cases hsolve : index.solve config target cancelled with
    | error error => rfl
    | ok sets =>
      change (do
        let fullFingerprint ← renderFeatures features
        let fingerprints ← sets.mapM (index.renderSet evaluator)
        return (⟨fullFingerprint, features.length, fingerprints⟩ : Analysis)) = _
      rw [mapM_congr (hr sets hsolve)]
      rfl

/-- Indexes that solve for a method alike up to the order of twins, and render its sets alike,
analyse it alike up to the order of twins. -/
theorem analyse_upToTwins (hf : index.features? target = other.features? target)
    (hs : UpToTwins (index.solve config target cancelled) (other.solve config target cancelled))
    (hr : ∀ sets, index.solve config target cancelled = .ok sets → ∀ set ∈ sets,
      index.renderSet evaluator set = other.renderSet evaluator set) :
    UpToTwins (index.analyse config evaluator target cancelled)
      (other.analyse config evaluator target cancelled) := by
  rcases hs with hs | ⟨method, twins, others, hp, hi, ho⟩
  · exact .inl (analyse_congr hf hs hr)
  · rw [analyse, analyse, ← hf, hi, ho]
    cases index.features? target with
    | none => exact .inl rfl
    | some features =>
      cases hrender : renderFeatures features with
      | error error => exact .inl (by simp only [hrender]; rfl)
      | ok text =>
        refine .inr ⟨method, twins, others, hp, ?_, ?_⟩
        · simp only [hrender]
          rfl
        · simp only [hrender]
          rfl

end MethodPrint.Index
