import MethodPrint.Analysis

/-!
# Reports

A report is the analysis of one method together with the snapshot of the corpus it was made from.

`SPEC_FULL.md` 3 and 11; operations `format_text`, `format_resolution` and `to_json`.
-/

namespace MethodPrint

/-- The fingerprints of a method in a loaded corpus. -/
structure Report where
  method : MethodId
  corpusId : String
  /-- The digest of the loaded corpus. -/
  corpusDigest : String
  /-- Which load of the session it was. -/
  generation : Nat
  fullFeatureCount : Nat
  fullFingerprint : String
  /-- The fingerprints of distinguishing sets, shortest first. -/
  fingerprints : List RenderedSet
  deriving DecidableEq

namespace RenderedSet

/-- The text of a set that is listed under a number. -/
def text (number : Nat) (set : RenderedSet) : String :=
  "\nFingerprint #" ++ toString number ++ " | " ++ toString set.features.length ++
    " feature(s) | " ++ set.strategy.title ++ "\n" ++ set.fingerprint ++ "\n"

end RenderedSet

/-- The text of a report: the fingerprint of all features, then each distinguishing set. -/
def Report.text (report : Report) : String :=
  "Found " ++ toString report.fingerprints.length ++ " fingerprint(s) for method : " ++
    report.method.text ++ "\n\n" ++
    "Full Method Fingerprint | " ++ toString report.fullFeatureCount ++ " feature(s)\n" ++
    report.fullFingerprint ++ "\n" ++
    String.join (report.fingerprints.zipIdx.map fun (set, place) ↦ set.text (place + 1))

/-- The text of a resolution: the method by its class and short identifier, then the others. -/
def Resolution.text (resolution : Resolution) : String :=
  (match resolution.method.definingClass? with
  | some name =>
    "Fingerprint found in class: " ++ name ++ "\nMethod: " ++ resolution.method.shortId ++ "\n"
  | none => "Fingerprint found at method: " ++ resolution.method.text ++ "\n") ++
    String.join (resolution.additional.map fun id ↦ "Also matches: " ++ id.text ++ "\n")

end MethodPrint
