import MethodPrint.Sha256
import MethodPrint.Stored.Write

/-!
# Digests of a corpus

The digest of an index depends on its methods and their features in corpus order and on nothing
else, so that results can be checked against the corpus they were made from. The hashed bytes
separate identifiers, features and methods by bytes that a stored feature does not contain.

`SPEC_FULL.md` 10; operation `corpus_digest`.
-/

namespace MethodPrint

/-- The bytes of a text in UTF-8. -/
def utf8Bytes (text : String) : List UInt8 := text.toUTF8.data.toList

/-- The bytes of one method: its identifier and its stored features, each followed by a zero, and
at last a byte that no text contains. -/
def digestEntry (id : MethodId) (features : List Feature) : List UInt8 :=
  utf8Bytes id.text ++ 0 ::
    features.flatMap (fun feature ↦ utf8Bytes feature.stored.compactText ++ [0]) ++ [0xff]

/-- The bytes that a digest is made from. -/
def digestInput (entries : List (MethodId × List Feature)) : List UInt8 :=
  entries.flatMap fun (id, features) ↦ digestEntry id features

/-- The lower case hexadecimal text of bytes, two digits for each. -/
def hexText (bytes : List UInt8) : String :=
  String.ofList (bytes.flatMap fun byte ↦ Text.hexPadded 2 byte.toNat)

/-- The digest of methods with their features (`corpus_digest`). Every feature has a stored text, so
every list has a digest. -/
def digest (entries : List (MethodId × List Feature)) : String :=
  hexText (Sha256.hash (digestInput entries))

namespace Index

/-- The methods of an index with their features. -/
def entries (index : Index) : List (MethodId × List Feature) :=
  index.methods.toList.map fun entry ↦ (entry.id, entry.features)

/-- The digest of an index. -/
def digest (index : Index) : String := MethodPrint.digest index.entries

end Index

end MethodPrint
