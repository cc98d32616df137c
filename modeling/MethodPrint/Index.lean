import Std.Data.HashMap
import MethodPrint.Feature.Extract
import MethodPrint.Posting

/-!
# Indexes

The index of a corpus leads from a feature to the methods that carry it. It is built once per
load: the methods take their positions in corpus order, and every feature gets the posting list of
its methods. A corpus without methods, with a flawed method or with a repeated method identifier
has no index.

`SPEC_FULL.md` 4.2; operations `build_with`, `lookup`, `full_features`, `position`, `ambiguity` and
`ids`.
-/

namespace MethodPrint

/-- A method of an index with its features. -/
structure IndexedMethod where
  method : Method
  features : List Feature

namespace IndexedMethod

/-- The identifier of an indexed method. -/
def id (entry : IndexedMethod) : MethodId := entry.method.id

end IndexedMethod

/-- The index of one corpus. -/
structure Index where
  corpusId : String
  /-- The methods in corpus order. -/
  methods : Array IndexedMethod
  /-- The position of each method. -/
  positions : Std.HashMap MethodId Nat
  /-- The posting list of each feature. -/
  postings : Std.HashMap Feature Posting
  /-- How many members of the corpus are not methods. -/
  skipped : Nat

namespace Index

/-- The methods met so far while a corpus is walked. -/
structure Roll where
  methods : Array IndexedMethod := #[]
  positions : Std.HashMap MethodId Nat := ∅
  skipped : Nat := 0

/-- Where a fault in one method is reported. -/
def methodContext (corpusId : String) (id : MethodId) : BuildContext :=
  { corpusId, component := "feature_index", operation := "extracting features",
    details := "method " ++ id.text }

/-- The reason given for a method whose identifier another one already has. -/
def duplicateReason : String := "duplicate method id"

/-- Where a method that no position is left for is reported. -/
def addressContext (corpusId : String) : BuildContext :=
  { corpusId, component := "feature_index", operation := "assigning method positions" }

/-- The reason given for a method that no position is left for. -/
def addressReason : String := "corpus has more methods than the index can address"

/-- The reason given for a corpus without methods. -/
def emptyReason (skipped : Nat) : String :=
  "corpus contains no methods (" ++ toString skipped ++ " other members skipped)"

/-- Where a corpus without methods is reported. -/
def emptyContext (corpusId : String) : BuildContext :=
  { corpusId, component := "feature_index", operation := "building" }

/-- Enters one member, as the loop of `build_with` does: a method takes the next position, anything
else is skipped. -/
def Roll.enter (corpusId : String) (window : Nat) (roll : Roll) :
    Member → Except FingerprintError Roll
  | .method method =>
    match method.extract window with
    | .error error => .error (error.withContext (methodContext corpusId method.id))
    | .ok features =>
      if UInt32.size ≤ roll.methods.size then
        .error (.indexBuild (addressContext corpusId) addressReason)
      else if roll.positions.contains method.id then
        .error (.indexBuild (methodContext corpusId method.id) duplicateReason)
      else
        .ok { roll with
          methods := roll.methods.push ⟨method, features⟩
          positions := roll.positions.insert method.id roll.methods.size }
  | _ => .ok { roll with skipped := roll.skipped + 1 }

/-- Enters the members in order up to the first that cannot be entered. -/
def Roll.enterAll (corpusId : String) (window : Nat) (roll : Roll) (members : List Member) :
    Except FingerprintError Roll :=
  members.foldlM (Roll.enter corpusId window) roll

/-- Adds a position to the posting lists of some features. -/
def post (position : Nat) (postings : Std.HashMap Feature Posting) (features : List Feature) :
    Std.HashMap Feature Posting :=
  features.foldl (fun postings feature ↦
    postings.alter feature fun list ↦ some ((list.getD #[]).push position)) postings

/-- The posting lists of methods that take their positions from a number on. -/
def postAll : Nat → Std.HashMap Feature Posting → List IndexedMethod → Std.HashMap Feature Posting
  | _, postings, [] => postings
  | position, postings, entry :: rest =>
    postAll (position + 1) (post (Posting.wrap position) postings entry.features) rest

/-- Builds the index of a corpus (`build_with`). The window says how many leading instructions give
a feature. -/
def build (corpusId : String) (window : Nat) (members : List Member) :
    Except FingerprintError Index := do
  let roll ← Roll.enterAll corpusId window {} members
  if roll.methods.isEmpty then
    throw (.indexBuild (emptyContext corpusId) (emptyReason roll.skipped))
  return {
    corpusId
    methods := roll.methods
    positions := roll.positions
    postings := postAll 0 ∅ roll.methods.toList
    skipped := roll.skipped }

/-- The number of indexed methods. -/
def size (index : Index) : Nat := index.methods.size

/-- The number of different features in the corpus (`distinct_features`). -/
def countFeatures (index : Index) : Nat := index.postings.size

/-- The method at a position. -/
def method? (index : Index) (position : Nat) : Option IndexedMethod := index.methods[position]?

/-- The position of a method. -/
def position? (index : Index) (id : MethodId) : Option Nat := index.positions[id]?

/-- The features of a method (`full_features`). -/
def features? (index : Index) (id : MethodId) : Option (List Feature) :=
  ((index.position? id).bind index.method?).map (·.features)

/-- The methods that carry a feature; none if nothing carries it. -/
def lookup (index : Index) (feature : Feature) : Posting := index.postings.getD feature #[]

/-- The methods that carry every one of some features. All methods carry every one of none. -/
def ambiguity (index : Index) (features : List Feature) : Posting :=
  (Posting.intersectAll? (features.map index.lookup)).getD (Posting.all index.size)

/-- The identifiers of the methods at some positions; unknown positions are left out. -/
def ids (index : Index) (positions : List Nat) : List MethodId :=
  positions.filterMap fun position ↦ (index.method? position).map (·.id)

/-- No feature at all singles nothing out. -/
theorem ambiguity_nil (index : Index) : index.ambiguity [] = Posting.all index.size := by
  simp [ambiguity, Posting.intersectAll?, Posting.shortestFirst]

/-- With as many methods as there are positions, no feature at all is said to have no methods. -/
theorem ambiguity_nil_of_size_eq {index : Index} (h : index.size = UInt32.size) :
    index.ambiguity [] = #[] := by
  rw [index.ambiguity_nil, Posting.all_of_eq h]

end Index

end MethodPrint
