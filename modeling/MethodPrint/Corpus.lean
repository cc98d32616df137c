import MethodPrint.Method.Basic

/-!
# Corpora

A corpus lists the members of an application: methods, fields and classes. Only its methods can be
fingerprinted.

`SPEC_FULL.md` 3 and 6; records `Corpus`, `Member`, `FieldDef` and `ClassDef`.
-/

namespace MethodPrint

/-- A declared field. -/
structure Field where
  id : String
  accessFlags : UInt32 := 0
  fieldType : String
  deriving DecidableEq

/-- A declared class. -/
structure ClassDecl where
  id : String
  accessFlags : UInt32 := 0
  deriving DecidableEq

/-- What a corpus can list. -/
inductive Member where
  | method (decl : Method)
  | field (decl : Field)
  | classDecl (decl : ClassDecl)
  deriving DecidableEq

/-- The kinds of members. -/
inductive MemberKind where
  | method
  | field
  | classDecl
  deriving DecidableEq

/-- The word for a kind of member. -/
def MemberKind.name : MemberKind → String
  | .method => "method"
  | .field => "field"
  | .classDecl => "class"

namespace Member

/-- The kind of a member. -/
def kind : Member → MemberKind
  | .method _ => .method
  | .field _ => .field
  | .classDecl _ => .classDecl

/-- The identifier of a member. -/
def id : Member → String
  | .method decl => decl.id.text
  | .field decl => decl.id
  | .classDecl decl => decl.id

/-- The method that a member is, if it is one. -/
def method? : Member → Option Method
  | .method decl => some decl
  | _ => none

end Member

/-- The members of an application in the order in which they are enumerated. -/
structure Corpus where
  id : String
  members : List Member
  deriving DecidableEq

namespace Corpus

/-- The methods of a corpus in its order. -/
def methods (corpus : Corpus) : List Method := corpus.members.filterMap Member.method?

end Corpus

end MethodPrint
