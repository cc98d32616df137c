import MethodPrint.Index
import MethodPrint.Predicate.Grammar

/-!
# Resolving predicates

The methods of an index that a predicate accepts, in corpus order. Source texts are turned into
predicates by an evaluator; the one of this library reads the predicate language.

`SPEC_FULL.md` 4.5; operations `resolve`, `resolve_all`, `resolve_unique` and `resolve_source`.
-/

namespace MethodPrint

/-- What comes of evaluating a source text. -/
inductive Evaluation where
  | accepted (predicate : Predicate)
  | rejected (diagnostic : Diagnostic)
  /-- The evaluator died. -/
  | crashed
  deriving DecidableEq

/-- Turns source texts into predicates. -/
abbrev Evaluator := String → Evaluation

/-- The evaluator that reads the predicate language. -/
def Evaluator.language : Evaluator := fun source ↦
  match Predicate.ofSource source with
  | .ok predicate => .accepted predicate
  | .error diagnostic => .rejected diagnostic

/-- Where a predicate leads. -/
structure Resolution where
  /-- The first accepted method in corpus order. -/
  method : MethodId
  /-- The others in corpus order. -/
  additional : List MethodId
  deriving DecidableEq

/-- Whether a predicate leads to one method only. -/
def Resolution.isUnique (resolution : Resolution) : Bool := resolution.additional.isEmpty

namespace Index

/-- The methods that a predicate accepts. -/
def resolveAll (index : Index) (predicate : Predicate) : List IndexedMethod :=
  index.methods.toList.filter fun entry ↦ predicate.accepts entry.method

/-- The first method that a predicate accepts. -/
def resolveFirst? (index : Index) (predicate : Predicate) : Option IndexedMethod :=
  index.methods.toList.find? fun entry ↦ predicate.accepts entry.method

/-- The only method that a predicate accepts. -/
def resolveUnique (index : Index) (predicate : Predicate) :
    Except FingerprintError IndexedMethod :=
  match index.resolveAll predicate with
  | [] => .error .matchNotFound
  | [entry] => .ok entry
  | entries => .error (.ambiguousMatch (entries.map (·.id)))

/-- Where the predicate of a source text leads. -/
def resolveSource (index : Index) (evaluator : Evaluator) (source : String) :
    Except FingerprintError Resolution :=
  match evaluator source with
  | .crashed => .error .workerStopped
  | .rejected diagnostic => .error (.eval diagnostic)
  | .accepted predicate =>
    match index.resolveAll predicate with
    | [] => .error .matchNotFound
    | first :: others => .ok { method := first.id, additional := others.map (·.id) }

/-- The first accepted method is the head of all accepted methods. -/
theorem head?_resolveAll (index : Index) (predicate : Predicate) :
    (index.resolveAll predicate).head? = index.resolveFirst? predicate := by
  simp [resolveAll, resolveFirst?, List.head?_filter]

end Index

end MethodPrint
