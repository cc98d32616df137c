import MethodPrint.Session.Basic
import MethodPrint.Stored.Read

/-!
# Corpus files

A corpus is kept in a file in its stored form. What can go wrong with the file is told apart from
what can go wrong with the corpus.

`SPEC_FULL.md` 6; operations `from_json_file` and `fingerprint_method`.
-/

namespace MethodPrint

/-- Why work on a corpus file fails. -/
inductive FileError where
  | unreadable (path : String)
  | unparsable (path : String) (fault : Json.Fault)
  | failed (error : FingerprintError)
  deriving DecidableEq

/-- The text of a file error. -/
def FileError.message : FileError → String
  | .unreadable path => "Failed to read corpus file: " ++ path
  | .unparsable path _ => "Failed to parse corpus file: " ++ path
  | .failed error => error.message

/-- The corpus in a file with some contents, if the file could be read. -/
def Corpus.ofFile (path : String) (contents : Option String) : Except FileError Corpus :=
  match contents with
  | none => .error (.unreadable path)
  | some text => (Corpus.ofText text).mapError (.unparsable path)

/-- Loads a corpus into a new session. -/
def Session.open (settings : Settings) (corpus : Corpus) :
    Session × Except FingerprintError Snapshot :=
  Session.load { settings } corpus.id (.ok corpus.members)

/-- The report on one method of a corpus file. -/
def reportOnFile (settings : Settings) (path : String) (contents : Option String)
    (method : MethodId) : Except FileError Report := do
  let corpus ← Corpus.ofFile path contents
  let (session, loaded) := Session.open settings corpus
  let _ ← loaded.mapError .failed
  (session.generate method).mapError .failed

/-- A file that cannot be read is reported before anything else. -/
theorem reportOnFile_none (settings : Settings) (path : String) (method : MethodId) :
    reportOnFile settings path none method = .error (.unreadable path) := rfl

end MethodPrint
