import MethodPrint.Session.Basic

/-!
# Log lines

What the program tells about its work while it does it. The lines follow from what was worked on
and what came of it, so they are told here and the work itself stays silent.

`SPEC_FULL.md` 8.
-/

namespace MethodPrint.CommandLine

/-- How important a log line is. -/
inductive Level where
  | warn
  | info
  | debug
  deriving DecidableEq

/-- The word for a level. -/
def Level.name : Level → String
  | .warn => "WARN"
  | .info => "INFO"
  | .debug => "DEBUG"

/-- A line of the log. -/
structure LogLine where
  level : Level
  text : String
  deriving DecidableEq

namespace LogLine

/-- A line about something gone wrong. -/
def warn (text : String) : LogLine := ⟨.warn, text⟩

/-- A line about the course of the work. -/
def info (text : String) : LogLine := ⟨.info, text⟩

/-- A line about details. -/
def debug (text : String) : LogLine := ⟨.debug, text⟩

/-- How a line is written. -/
def display (line : LogLine) : String := "[" ++ line.level.name ++ "] - " ++ line.text

end LogLine

/-- What is told about reading a corpus file. -/
def tellFile (path : String) (corpus : Option Corpus) : List LogLine :=
  .debug ("Reading corpus from " ++ path) ::
    (match corpus with
    | some corpus =>
      [.debug ("Read " ++ toString corpus.members.length ++ " members of corpus " ++ corpus.id)]
    | none => [])

/-- What is told about one member that is entered into an index. -/
def tellMember : Member → List LogLine
  | .method method =>
    let bits := AccessFlag.unnamed method.accessFlags
    if method.id.text.isEmpty || method.returnType.isEmpty || bits == 0 then []
    else
      [.debug ("Ignoring unnamed access flag bits 0x" ++ String.ofList (Text.hex bits.toNat) ++
        " on " ++ method.id.text)]
  | member => [.debug ("Skipping " ++ member.kind.name ++ " " ++ member.id)]

/-- What is told about members up to the first that cannot be entered. -/
def tellMembers (corpusId : String) (window : Nat) (roll : Index.Roll) :
    List Member → List LogLine
  | [] => []
  | member :: rest =>
    tellMember member ++
      (match roll.enter corpusId window member with
      | .ok roll => tellMembers corpusId window roll rest
      | .error _ => [])

/-- What is told about a load. -/
def tellLoad (window : Nat) (corpus : Corpus) (loaded : Except FingerprintError Snapshot) :
    List LogLine :=
  [.info ("Loading corpus " ++ corpus.id), .info ("Building feature index for corpus " ++ corpus.id)]
    ++ tellMembers corpus.id window {} corpus.members ++
    (match loaded with
    | .error error => [.warn ("Failed to load corpus " ++ corpus.id ++ ": " ++ error.message)]
    | .ok snapshot =>
      let methods := toString snapshot.index.size
      [.info ("Indexed " ++ methods ++ " methods with " ++
          toString snapshot.index.countFeatures ++ " distinct features (" ++
          toString snapshot.index.skipped ++ " non-method members skipped)"),
        .info ("Published corpus " ++ corpus.id ++ " as generation " ++
          toString snapshot.generation ++ " (" ++ methods ++ " methods)")])

/-- What is told about the sets that a search has found. -/
def tellSets (index : Index) (target : MethodId) (features : List Feature)
    (sets : List MinimalSet) : List LogLine :=
  if index.size = 1 then
    [.debug (target.text ++ " is the only method in the corpus")]
  else
    let exhaustive := sets.filter (·.strategy == .exhaustive)
    let smallest := (sets.head?.map (·.size)).getD 0
    (match exhaustive with
    | [] => []
    | set :: _ =>
      [.debug ("Exhaustive search found " ++ toString exhaustive.length ++ " set(s) of size " ++
        toString set.size)]) ++
    [.info ("Found " ++ toString sets.length ++ " minimal feature set(s) for " ++ target.text ++
      " (smallest has " ++ toString smallest ++ " of " ++ toString features.length ++
      " features)")]

/-- What is told about checking that a fingerprint leads back to its method. -/
def tellCheck (index : Index) (evaluator : Evaluator) (target : MethodId) (fingerprint : String) :
    List LogLine :=
  match evaluator fingerprint with
  | .accepted predicate =>
    let found := index.resolveAll predicate
    .debug ("Predicate matched " ++ toString found.length ++ " method(s) in " ++ index.corpusId) ::
      (if found.map (·.id) = [target] then [.debug ("Round trip confirmed for " ++ target.text)]
      else [])
  | _ => []

/-- What is told about rendering and checking sets up to the first that fails. -/
def tellChecks (index : Index) (evaluator : Evaluator) (target : MethodId) :
    List MinimalSet → List LogLine
  | [] => []
  | set :: sets =>
    match Index.renderFeatures set.features with
    | .error _ => []
    | .ok fingerprint =>
      tellCheck index evaluator target fingerprint ++
        (match index.verify evaluator target fingerprint with
        | .ok () => tellChecks index evaluator target sets
        | .error _ => [])

/-- What is told about the analysis of a method. -/
def tellAnalysis (index : Index) (config : SolverConfig) (evaluator : Evaluator)
    (target : MethodId) : List LogLine :=
  .info ("Generating fingerprints for method: " ++ target.text) ::
    (match index.features? target with
    | none => []
    | some features =>
      match Index.renderFeatures features with
      | .error _ => []
      | .ok _ =>
        match index.solve config target false with
        | .ok sets =>
          tellSets index target features sets ++ tellChecks index evaluator target sets
        | .error (.noDistinguishingSet _ twins) =>
          [.warn (target.text ++ " shares every feature with " ++ toString twins.length ++
            " other method(s)")]
        | .error _ => [])

end MethodPrint.CommandLine
