import MethodPrint.Json.Reader
import MethodPrint.Json.Record
import MethodPrint.Report.Basic

/-!
# Reading stored forms

Corpora, features and results out of their stored forms. Records are read as `Json.Shape` says. A
member is kept whole until its kind is known, wherever the kind stands; the value of a feature is
kept only if it comes before the kind.

`SPEC_FULL.md` 10.
-/

namespace MethodPrint

open Json

/-- Reads a method identifier. -/
def MethodId.read : Read MethodId := fun tree ↦ (readText? tree).map MethodId.mk

/-- Reads a strategy. -/
def Strategy.read : Read Strategy := readVariant Strategy.ofName?

/-- Reads a kind of feature. -/
def FeatureKind.read : Read FeatureKind := readVariant FeatureKind.ofName?

/-- The stored record of an instruction. -/
def Instruction.shape : Shape Instruction :=
  (Shape.field "opcode" readText? none <|
    Shape.field "string" (readOptional readText?) (some none) <|
    Shape.field "method" (readOptional readText?) (some none) <|
    Shape.field "literal" (readOptional readInt64) (some none) Shape.done).map
  fun (opcode, string, method, literal, ()) ↦ { opcode, string, method, literal }

/-- Reads a method body, which is never longer than a list can be. -/
def readBody : Read { body : List Instruction // body.length ≤ stringCapacity } := fun tree ↦
  match readList Instruction.shape.read tree with
  | .error fault => .error fault
  | .ok body => if h : body.length ≤ stringCapacity then .ok ⟨body, h⟩ else .error .misfit

/-- The stored record of a method. -/
def Method.shape : Shape Method :=
  (Shape.field "id" MethodId.read none <|
    Shape.field "access_flags" readWord32 (some 0) <|
    Shape.field "return_type" readText? none <|
    Shape.field "parameters" (readList readText?) (some []) <|
    Shape.field "instructions" readBody (some ⟨[], Nat.zero_le _⟩) Shape.done).map
  fun (id, accessFlags, returnType, parameters, body, ()) ↦
    { id, accessFlags, returnType, parameters, instructions := body.1, fits := body.2 }

/-- The stored record of a field declaration. -/
def Field.shape : Shape Field :=
  (Shape.field "id" readText? none <|
    Shape.field "access_flags" readWord32 (some 0) <|
    Shape.field "field_type" readText? none Shape.done).map
  fun (id, accessFlags, fieldType, ()) ↦ { id, accessFlags, fieldType }

/-- The stored record of a class declaration. -/
def ClassDecl.shape : Shape ClassDecl :=
  (Shape.field "id" readText? none <|
    Shape.field "access_flags" readWord32 (some 0) Shape.done).map
  fun (id, accessFlags, ()) ↦ { id, accessFlags }

/-- The kind of member that a word stands for. -/
def MemberKind.ofName? (name : String) : Option MemberKind :=
  [MemberKind.method, .field, .classDecl].find? (·.name == name)

/-- Reads the kind of a member, which is a plain string. -/
def MemberKind.read : Read MemberKind := readName MemberKind.ofName?

/-- Reads a member of a known kind out of a kept object or array. -/
def MemberKind.readMember : MemberKind → Read Member
  | .method => Read.ofKept fun tree ↦ (Method.shape.read tree).map .method
  | .field => Read.ofKept fun tree ↦ (Field.shape.read tree).map .field
  | .classDecl => Read.ofKept fun tree ↦ (ClassDecl.shape.read tree).map .classDecl

/-- Reads the kind of a member from its entries, keeping all others, given what is known of it so
far. -/
def readMemberKind (depth : Nat) (kind : Option MemberKind) :
    Entries → Except Fault MemberKind
  | .closed =>
    match kind with
    | some kind => .ok kind
    | none => .error .misfit
  | .stop fault => .error fault
  | .unnamed value => .error value.nameFault
  | .brokenName kept _ => .error kept
  | .entry (.error fault) _ _ => .error fault
  | .entry (.ok name) value rest =>
    if name = "kind" then
      if kind.isSome then .error .misfit
      else
        match MemberKind.read value with
        | .error fault => .error fault
        | .ok found => readMemberKind depth (some found) rest
    else
      match value.keepFault? depth with
      | some fault => .error fault
      | none => readMemberKind depth kind rest

/-- Reads a member within `depth` other values: an object with its kind anywhere, or an array that
starts with its kind. -/
def Member.readWithin (depth : Nat) : Read Member
  | .object entries =>
    match readMemberKind (depth + 1) none entries with
    | .error fault => .error fault
    | .ok kind => kind.readMember (.object entries)
  | .array .closed => .error .misfit
  | .array (.stop fault) => .error fault
  | .array (.item first rest) =>
    match MemberKind.read first with
    | .error fault => .error fault
    | .ok kind =>
      match rest.keepFault? (depth + 1) with
      | some fault => .error fault
      | none => kind.readMember (.array rest)
  | tree => .error tree.mismatch

/-- Reads a member. -/
def Member.read : Read Member := Member.readWithin 0

/-- The stored record of a corpus. -/
def Corpus.shape : Shape Corpus :=
  (Shape.field "id" readText? none <|
    Shape.field "members" (readList (Member.readWithin 2)) none Shape.done).map
  fun (id, members, ()) ↦ { id, members }

/-- The stored record of an opcode at a position. -/
def opcodeAtShape : Shape Feature :=
  (Shape.field "index" readNat64 none <|
    Shape.field "opcode" readText? none Shape.done).map
  fun (index, opcode, ()) ↦ .opcodeAt index opcode

/-- Reads the value of a feature of a known kind. -/
def FeatureKind.readValue : FeatureKind → Read Feature
  | .accessFlags => fun tree ↦ (readWord32 tree).map .accessFlags
  | .returnType => fun tree ↦ (readText? tree).map .returnType
  | .parameters => fun tree ↦ (readList readText? tree).map .parameters
  | .stringLiteral => fun tree ↦ (readText? tree).map .stringLiteral
  | .invokedMethod => fun tree ↦ (readText? tree).map .invokedMethod
  | .literal => fun tree ↦ (readInt64 tree).map .literal
  | .opcodeAt => opcodeAtShape.readObject

/-- What is known of a feature while its entries are read. -/
inductive FeatureDraft where
  | nothing
  | kindOnly (kind : FeatureKind)
  | valueOnly (kept : Tree)
  | done (feature : Feature)

/-- The draft after the entry with the kind. -/
def FeatureDraft.addKind (tree : Tree) : FeatureDraft → Except Fault FeatureDraft
  | .nothing => (FeatureKind.read tree).map .kindOnly
  | .valueOnly kept =>
    match FeatureKind.read tree with
    | .error fault => .error fault
    | .ok kind => (Read.ofKept kind.readValue kept).map .done
  | _ => .error .misfit

/-- The draft after the entry with the value. -/
def FeatureDraft.addValue (depth : Nat) (tree : Tree) : FeatureDraft → Except Fault FeatureDraft
  | .nothing =>
    match tree.keepFault? depth with
    | some fault => .error fault
    | none => .ok (.valueOnly tree)
  | .kindOnly kind => (kind.readValue tree).map .done
  | _ => .error .misfit

/-- Reads a feature from its entries. -/
def readFeature (depth : Nat) (draft : FeatureDraft) : Entries → Except Fault Feature
  | .closed =>
    match draft with
    | .done feature => .ok feature
    | _ => .error .misfit
  | .stop fault => .error fault
  | .unnamed value => .error value.nameFault
  | .brokenName kept _ => .error kept
  | .entry (.error fault) _ _ => .error fault
  | .entry (.ok name) value rest =>
    if name = "kind" then
      match draft.addKind value with
      | .error fault => .error fault
      | .ok draft => readFeature depth draft rest
    else if name = "value" then
      match draft.addValue depth value with
      | .error fault => .error fault
      | .ok draft => readFeature depth draft rest
    else
      match value.passFault? with
      | some fault => .error fault
      | none => readFeature depth draft rest

/-- Reads a feature within `depth` other values: an object with its kind and its value in either
order, or an array of both with the kind as a plain string. -/
def Feature.readWithin (depth : Nat) : Read Feature
  | .object entries => readFeature (depth + 1) .nothing entries
  | .array .closed => .error .misfit
  | .array (.stop fault) => .error fault
  | .array (.item first rest) =>
    match readName FeatureKind.ofName? first, rest with
    | .error fault, _ => .error fault
    | .ok _, .closed => .error .misfit
    | .ok _, .stop fault => .error fault
    | .ok kind, .item value rest =>
      match kind.readValue value with
      | .error fault => .error fault
      | .ok feature => rest.surplus.map fun _ ↦ feature
  | tree => .error tree.mismatch

/-- Reads a feature. -/
def Feature.read : Read Feature := Feature.readWithin 0

/-- The stored record of a distinguishing set. -/
def MinimalSet.shape : Shape MinimalSet :=
  (Shape.field "target" MethodId.read none <|
    Shape.field "indices" (readList readNat64) none <|
    Shape.field "features" (readList (Feature.readWithin 2)) none <|
    Shape.field "strategy" Strategy.read none Shape.done).map
  fun (target, indices, features, strategy, ()) ↦ { target, indices, features, strategy }

/-- The stored record of a rendered set within a report. -/
def RenderedSet.shape : Shape RenderedSet :=
  (Shape.field "features" (readList (Feature.readWithin 4)) none <|
    Shape.field "fingerprint" readText? none <|
    Shape.field "strategy" Strategy.read none Shape.done).map
  fun (features, fingerprint, strategy, ()) ↦ { features, fingerprint, strategy }

/-- The stored record of a report. -/
def Report.shape : Shape Report :=
  (Shape.field "method" MethodId.read none <|
    Shape.field "corpus_id" readText? none <|
    Shape.field "corpus_digest" readText? none <|
    Shape.field "generation" readNat64 none <|
    Shape.field "full_feature_count" readNat64 none <|
    Shape.field "full_fingerprint" readText? none <|
    Shape.field "fingerprints" (readList RenderedSet.shape.read) none Shape.done).map
  fun (method, corpusId, corpusDigest, generation, fullFeatureCount, fullFingerprint,
      fingerprints, ()) ↦
    { method, corpusId, corpusDigest, generation, fullFeatureCount, fullFingerprint, fingerprints }

/-- The stored record of a resolution. -/
def Resolution.shape : Shape Resolution :=
  (Shape.field "method" MethodId.read none <|
    Shape.field "additional_matches" (readList MethodId.read) none Shape.done).map
  fun (method, additional, ()) ↦ { method, additional }

/-- The corpus that a text stores. -/
def Corpus.ofText (text : String) : Except Fault Corpus := readText Corpus.shape.read text

end MethodPrint
