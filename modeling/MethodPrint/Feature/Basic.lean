import MethodPrint.Text.Quoted

/-!
# Features

A feature is one structural property of a method. Methods that share a feature cannot be told
apart by it, so a set of features stands for the methods that carry all of them. The order of the
kinds is the order in which features are extracted.

`SPEC_FULL.md` 3; records `Feature` and `FeatureKind`.
-/

namespace MethodPrint

/-- A structural property of a method. -/
inductive Feature where
  /-- The named part of the access flag word. -/
  | accessFlags (flags : UInt32)
  /-- The descriptor of the return type. -/
  | returnType (type : String)
  /-- The descriptors of all parameters in order. -/
  | parameters (types : List String)
  /-- A string that the body refers to. -/
  | stringLiteral (value : String)
  /-- The signature of a method that the body calls. -/
  | invokedMethod (signature : String)
  /-- A number that the body uses. -/
  | literal (value : Int64)
  /-- The opcode at a position of the body. -/
  | opcodeAt (index : Nat) (opcode : String)
  deriving DecidableEq, Hashable, Inhabited

/-- The kinds of features in the order of extraction. -/
inductive FeatureKind where
  | accessFlags
  | returnType
  | parameters
  | stringLiteral
  | invokedMethod
  | literal
  | opcodeAt
  deriving DecidableEq

namespace FeatureKind

/-- All kinds in order. -/
def all : List FeatureKind :=
  [.accessFlags, .returnType, .parameters, .stringLiteral, .invokedMethod, .literal, .opcodeAt]

/-- The place of a kind in the order of extraction. -/
def rank : FeatureKind → Nat
  | .accessFlags => 0
  | .returnType => 1
  | .parameters => 2
  | .stringLiteral => 3
  | .invokedMethod => 4
  | .literal => 5
  | .opcodeAt => 6

/-- The word for a kind in stored features. -/
def name : FeatureKind → String
  | .accessFlags => "access_flags"
  | .returnType => "return_type"
  | .parameters => "parameters"
  | .stringLiteral => "string_literal"
  | .invokedMethod => "invoked_method"
  | .literal => "literal"
  | .opcodeAt => "opcode_at"

/-- The kind that a word stands for. -/
def ofName? (name : String) : Option FeatureKind := all.find? (·.name == name)

/-- Every kind is listed. -/
theorem mem_all (kind : FeatureKind) : kind ∈ all := by cases kind <;> decide

/-- A kind is found under its own name. -/
theorem ofName?_name (kind : FeatureKind) : ofName? kind.name = some kind := by
  cases kind <;> decide

/-- Different kinds have different places. -/
theorem rank_inj {a b : FeatureKind} : a.rank = b.rank ↔ a = b := by
  cases a <;> cases b <;> decide

end FeatureKind

namespace Feature

/-- The kind of a feature. -/
def kind : Feature → FeatureKind
  | .accessFlags _ => .accessFlags
  | .returnType _ => .returnType
  | .parameters _ => .parameters
  | .stringLiteral _ => .stringLiteral
  | .invokedMethod _ => .invokedMethod
  | .literal _ => .literal
  | .opcodeAt _ _ => .opcodeAt

/-- The order of features: by kind, then by value. Texts are ordered by code points and lists
lexicographically. -/
def order : Feature → Feature → Ordering
  | .accessFlags a, .accessFlags b => compare a b
  | .returnType a, .returnType b => compare a b
  | .parameters a, .parameters b => compare a b
  | .stringLiteral a, .stringLiteral b => compare a b
  | .invokedMethod a, .invokedMethod b => compare a b
  | .literal a, .literal b => compare a b
  | .opcodeAt i a, .opcodeAt j b => (compare i j).then (compare a b)
  | a, b => compare a.kind.rank b.kind.rank

/-- The one-line text of a feature. -/
def display : Feature → String
  | .accessFlags flags => "access:0x" ++ String.ofList (Text.hex flags.toNat)
  | .returnType type => "returns:" ++ type
  | .parameters types => "parameters:(" ++ String.join types ++ ")"
  | .stringLiteral value => "string:" ++ Text.display value
  | .invokedMethod signature => "invokes:" ++ signature
  | .literal value => "literal:" ++ toString value.toInt
  | .opcodeAt index opcode => "opcode[" ++ toString index ++ "]:" ++ opcode

/-- Features of different kinds are ordered by their kinds. -/
theorem order_of_kind_ne {a b : Feature} (h : a.kind ≠ b.kind) :
    order a b = compare a.kind.rank b.kind.rank := by
  cases a <;> cases b <;> first | rfl | exact absurd rfl h

end Feature

/-- The positions of features in ascending order; equal features keep their order. -/
def sortedPositions (features : List Feature) : List Nat :=
  (features.zipIdx.mergeSort fun a b ↦ (a.1.order b.1).isLE).map (·.2)

/-- The number of different features in a list. -/
def countDistinct (features : List Feature) : Nat := features.eraseDups.length

end MethodPrint
