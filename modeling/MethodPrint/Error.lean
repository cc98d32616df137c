import MethodPrint.Corpus
import MethodPrint.Json.Fault
import MethodPrint.Text.Quoted

/-!
# Errors

Why an operation fails, and the text in which it says so. `FingerprintError` is the one type for
the failures of the whole library; its causes that have structure of their own come first.

`SPEC_FULL.md` 7; operations `with_context`, `is_indistinguishable` and `is_defect`.
-/

namespace MethodPrint

/-- Where a source text breaks the rules of the predicate language, and how. Lines and columns
count characters from one. -/
structure Diagnostic where
  line : Nat
  column : Nat
  message : String
  deriving DecidableEq

/-- The text of a diagnostic. -/
def Diagnostic.text (diagnostic : Diagnostic) : String :=
  "line " ++ toString diagnostic.line ++ ", column " ++ toString diagnostic.column ++ ": " ++
    diagnostic.message

/-- What keeps a method from being fingerprinted. -/
inductive MethodFlaw where
  | emptyId
  | emptyReturnType
  | missingOpcode (index : Nat)
  /-- A reason that the source of the methods gave. -/
  | reported (reason : String)
  deriving DecidableEq

/-- The text of a flaw. -/
def MethodFlaw.message : MethodFlaw → String
  | .emptyId => "empty method id"
  | .emptyReturnType => "empty return type"
  | .missingOpcode index => "instruction " ++ toString index ++ " has no opcode"
  | .reported reason => reason

/-- Why a list of features has no fingerprint. A conflict is between two features that would have
to share a clause which holds one value. -/
inductive RenderFault where
  | unnamedFlags (bits : UInt32)
  | unnamedOpcode (mnemonic : String)
  | accessFlagsConflict (first second : UInt32)
  | returnTypeConflict (first second : String)
  | parametersConflict (first second : List String)
  | opcodeConflict (index : Nat) (first second : String)
  /-- A reason that another renderer gave. -/
  | reported (reason : String)
  deriving DecidableEq

/-- The text of a conflict between two values. -/
def RenderFault.conflict (what first second : String) : String :=
  "conflicting " ++ what ++ ": " ++ first ++ " and " ++ second ++ " cannot share one clause"

/-- The text of a render fault. -/
def RenderFault.message : RenderFault → String
  | .unnamedFlags bits =>
    "access flag bits 0x" ++ String.ofList (Text.hex bits.toNat) ++ " have no DSL name"
  | .unnamedOpcode mnemonic => "opcode " ++ Text.display mnemonic ++ " has no DSL name"
  | .accessFlagsConflict first second =>
    conflict "access flags" (toString first.toNat) (toString second.toNat)
  | .returnTypeConflict first second =>
    conflict "return type" (Text.display first) (Text.display second)
  | .parametersConflict first second =>
    conflict "parameter list" (Text.displayList first) (Text.displayList second)
  | .opcodeConflict index first second =>
    conflict ("opcode at " ++ toString index) (Text.display first) (Text.display second)
  | .reported reason => reason

/-- How rendering fails. -/
inductive RenderFailure where
  | fault (fault : RenderFault)
  /-- The renderer died: no list has room for the opcodes. -/
  | crashed
  deriving DecidableEq

/-- Where building an index failed. -/
structure BuildContext where
  corpusId : Option String := none
  component : String
  operation : String
  details : Option String := none
  deriving DecidableEq

/-- The text of a build context. -/
def BuildContext.text (context : BuildContext) : String :=
  "In " ++ context.component ++ " while " ++ context.operation ++
    (match context.corpusId with
    | some id => " for corpus " ++ id
    | none => "") ++
    (match context.details with
    | some details => " (" ++ details ++ ")"
    | none => "")

/-- Why an operation fails. -/
inductive FingerprintError where
  | unsupportedMember (kind : MemberKind) (id : String)
  | malformedMethod (id : MethodId) (flaw : MethodFlaw)
  | indexBuild (context : BuildContext) (reason : String)
  | unknownMethod (id : MethodId)
  /-- Every feature of the method also belongs to each of its twins. -/
  | noDistinguishingSet (method : MethodId) (twins : List MethodId)
  | render (fault : RenderFault)
  | eval (diagnostic : Diagnostic)
  | matchNotFound
  | ambiguousMatch (found : List MethodId)
  /-- A fingerprint does not lead back to the method it was made for. -/
  | roundTrip (target : MethodId) (reason : String)
  | noCorpusLoaded
  | cancelled
  | worker (reason : String)
  | io (reason : String)
  | json (fault : Json.Fault)
  deriving DecidableEq

namespace FingerprintError

/-- The error of a request whose evaluator or renderer died. -/
def workerStopped : FingerprintError := .worker "worker stopped before delivering a result"

/-- The text of an error. -/
def message : FingerprintError → String
  | .unsupportedMember kind id =>
    "Unsupported member: " ++ kind.name ++ " '" ++ id ++ "' is not a method"
  | .malformedMethod id flaw => "Malformed method '" ++ id.text ++ "': " ++ flaw.message
  | .indexBuild context reason => "Index build error: " ++ context.text ++ ": " ++ reason
  | .unknownMethod id => "Unknown method: " ++ id.text
  | .noDistinguishingSet method twins =>
    "No distinguishing feature set for " ++ method.text ++ ": identical to " ++
      toString twins.length ++ " other method(s)"
  | .render fault => "Render error: " ++ fault.message
  | .eval diagnostic => "Evaluation error: " ++ diagnostic.text
  | .matchNotFound => "No method matches the predicate"
  | .ambiguousMatch found =>
    "Predicate is ambiguous: " ++ toString found.length ++ " methods match"
  | .roundTrip target reason => "Round trip failed for " ++ target.text ++ ": " ++ reason
  | .noCorpusLoaded => "No corpus loaded"
  | .cancelled => "Request cancelled"
  | .worker reason => "Worker error: " ++ reason
  | .io reason => "I/O error: " ++ reason
  | .json fault => "JSON error: " ++ fault.message

/-- The method is structurally identical to another one: an outcome and not a failure. -/
def isIndistinguishable : FingerprintError → Bool
  | .noDistinguishingSet _ _ => true
  | _ => false

/-- The error points at the vocabulary or the search and not at the input. -/
def isDefect : FingerprintError → Bool
  | .render _ | .roundTrip _ _ | .worker _ => true
  | _ => false

/-- The failure of a request that has something to render. -/
def ofRender : RenderFailure → FingerprintError
  | .fault fault => .render fault
  | .crashed => .workerStopped

/-- The failure as a failure to build an index; one that already says so is kept as it is. -/
def withContext (context : BuildContext) : FingerprintError → FingerprintError
  | .indexBuild inner reason => .indexBuild inner reason
  | error => .indexBuild context error.message

/-- Giving a context twice keeps the first one. -/
theorem withContext_withContext (outer inner : BuildContext) (error : FingerprintError) :
    (error.withContext inner).withContext outer = error.withContext inner := by
  cases error <;> rfl

end FingerprintError

end MethodPrint
