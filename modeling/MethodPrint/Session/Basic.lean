import MethodPrint.Digest

/-!
# Sessions

A session holds at most one snapshot of a loaded corpus and counts its loads. A load builds the new
index first and publishes it only if that succeeds, so a failed load changes nothing. Requests are
answered from the active snapshot.

`SPEC_FULL.md` 5 and 6; operations `load`, `unload`, `snapshot`, `is_current`,
`generate_fingerprints` and `resolve_predicate`.
-/

namespace MethodPrint

/-- The settings of a session. -/
structure Settings where
  /-- How many leading instructions of a method give a feature; takes effect on load. -/
  window : Nat := 16
  solver : SolverConfig := {}
  deriving DecidableEq

/-- A published index. -/
structure Snapshot where
  /-- Which load of the session it came from. -/
  generation : Nat
  digest : String
  index : Index

namespace Snapshot

/-- The corpus that a snapshot was made from. -/
def corpusId (snapshot : Snapshot) : String := snapshot.index.corpusId

/-- The report on a method. -/
def report (snapshot : Snapshot) (settings : Settings) (evaluator : Evaluator) (method : MethodId)
    (cancelled : Bool) : Except FingerprintError Report :=
  (snapshot.index.analyse settings.solver evaluator method cancelled).map fun analysis ↦
    { method
      corpusId := snapshot.corpusId
      corpusDigest := snapshot.digest
      generation := snapshot.generation
      fullFeatureCount := analysis.fullFeatureCount
      fullFingerprint := analysis.fullFingerprint
      fingerprints := analysis.fingerprints }

end Snapshot

/-- The owner of the loaded corpus. -/
structure Session where
  settings : Settings := {}
  evaluator : Evaluator := Evaluator.language
  /-- The active snapshot. -/
  current : Option Snapshot := none
  /-- How many loads have succeeded. -/
  loads : Nat := 0

namespace Session

/-- Where a corpus that cannot be enumerated is reported. -/
def enumerationContext (corpusId : String) : BuildContext :=
  { corpusId, component := "session", operation := "enumerating members" }

/-- The index of a corpus whose members may fail to be enumerated. -/
def buildIndex (session : Session) (corpusId : String)
    (members : Except FingerprintError (List Member)) : Except FingerprintError Index :=
  match members with
  | .error error => .error (error.withContext (enumerationContext corpusId))
  | .ok members => Index.build corpusId session.settings.window members

/-- Publishes an index as the next snapshot: the second half of `load`. The step from the index to
its digest could be refused only by the writer of stored features, which refuses a value for its
shape; no feature has such a shape, so there is no branch for it here. -/
def publish (session : Session) (index : Index) : Session × Snapshot :=
  let snapshot : Snapshot := ⟨session.loads + 1, index.digest, index⟩
  ({ session with current := some snapshot, loads := session.loads + 1 }, snapshot)

/-- Loads a corpus (`load`). Only enumerating the members or building the index can fail. -/
def load (session : Session) (corpusId : String)
    (members : Except FingerprintError (List Member)) :
    Session × Except FingerprintError Snapshot :=
  match session.buildIndex corpusId members with
  | .error error => (session, .error error)
  | .ok index =>
    let (session, snapshot) := session.publish index
    (session, .ok snapshot)

/-- Drops the active snapshot. -/
def unload (session : Session) : Session := { session with current := none }

/-- The active snapshot. -/
def snapshot (session : Session) : Except FingerprintError Snapshot :=
  match session.current with
  | some snapshot => .ok snapshot
  | none => .error .noCorpusLoaded

/-- Whether results of a generation describe the active snapshot. -/
def isCurrent (session : Session) (generation : Nat) : Bool :=
  session.current.any (·.generation == generation)

/-- The report on a method of the active snapshot (`generate_fingerprints`). -/
def generate (session : Session) (method : MethodId) : Except FingerprintError Report := do
  (← session.snapshot).report session.settings session.evaluator method false

/-- Where a source text leads in the active snapshot (`resolve_predicate`). -/
def resolve (session : Session) (source : String) : Except FingerprintError Resolution := do
  (← session.snapshot).index.resolveSource session.evaluator source

/-- A load that fails changes nothing. -/
theorem load_fst_of_error {session : Session} {corpusId : String}
    {members : Except FingerprintError (List Member)} {error : FingerprintError}
    (h : session.buildIndex corpusId members = .error error) :
    session.load corpusId members = (session, .error error) := by
  simp [load, h]

/-- A load that succeeds publishes the next generation. -/
theorem load_of_ok {session : Session} {corpusId : String}
    {members : Except FingerprintError (List Member)} {index : Index}
    (h : session.buildIndex corpusId members = .ok index) :
    session.load corpusId members =
      ((session.publish index).1, .ok ⟨session.loads + 1, index.digest, index⟩) := by
  simp [load, h, publish]

end Session

end MethodPrint
