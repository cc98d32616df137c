import MethodPrint.Predicate.Render
import MethodPrint.Resolve
import MethodPrint.Search.Solve

/-!
# Analysing a method

Solves for the distinguishing sets of a method, renders each as a fingerprint and checks that the
fingerprint leads back to the method and to no other. The fingerprint of all features is rendered
as well, before anything is searched.

`SPEC_FULL.md` 4.3 and 7; operations `fingerprint` and `verify` of the analyzer.
-/

namespace MethodPrint

/-- A distinguishing set with its fingerprint. -/
structure RenderedSet where
  features : List Feature
  fingerprint : String
  strategy : Strategy
  deriving DecidableEq

/-- The fingerprints of one method. -/
structure Analysis where
  /-- The fingerprint of all features. -/
  fullFingerprint : String
  /-- The number of all features. -/
  fullFeatureCount : Nat
  /-- The fingerprints of distinguishing sets, shortest first. -/
  fingerprints : List RenderedSet
  deriving DecidableEq

namespace Index

/-- Checks that a fingerprint leads to a method and to no other. -/
def verify (index : Index) (evaluator : Evaluator) (target : MethodId) (fingerprint : String) :
    Except FingerprintError Unit :=
  match evaluator fingerprint with
  | .crashed => .error .workerStopped
  | .rejected diagnostic =>
    .error (.roundTrip target ("rendered fingerprint does not parse: " ++ diagnostic.text))
  | .accepted predicate =>
    match index.resolveUnique predicate with
    | .ok entry =>
      if entry.id = target then .ok ()
      else .error (.roundTrip target ("resolved to " ++ entry.id.text))
    | .error error => .error (.roundTrip target error.message)

/-- The fingerprint of features, as an operation on an index can fail. -/
def renderFeatures (features : List Feature) : Except FingerprintError String :=
  (render features).mapError .ofRender

/-- A distinguishing set with its fingerprint, checked. -/
def renderSet (index : Index) (evaluator : Evaluator) (set : MinimalSet) :
    Except FingerprintError RenderedSet := do
  let fingerprint ← renderFeatures set.features
  index.verify evaluator set.target fingerprint
  return { features := set.features, fingerprint, strategy := set.strategy }

/-- The fingerprints of a method (`fingerprint` of the analyzer). -/
def analyse (index : Index) (config : SolverConfig) (evaluator : Evaluator) (target : MethodId)
    (cancelled : Bool) : Except FingerprintError Analysis :=
  match index.features? target with
  | none => .error (.unknownMethod target)
  | some features => do
    let fullFingerprint ← renderFeatures features
    let sets ← index.solve config target cancelled
    let fingerprints ← sets.mapM (index.renderSet evaluator)
    return { fullFingerprint, fullFeatureCount := features.length, fingerprints }

/-- Only indexed methods have fingerprints. -/
theorem analyse_of_features?_eq_none {index : Index} {target : MethodId}
    (h : index.features? target = none) (config : SolverConfig) (evaluator : Evaluator)
    (cancelled : Bool) :
    index.analyse config evaluator target cancelled = .error (.unknownMethod target) := by
  simp [analyse, h]

end Index

end MethodPrint
