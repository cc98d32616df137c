import MethodPrint.CommandLine.Narration
import MethodPrint.CommandLine.Options
import MethodPrint.CorpusFile
import MethodPrint.Session.Task

/-!
# Running the program

What the program does with a command line, as a function of the files it can read: what it prints,
what it logs, the error it ends with, and its exit status.

`SPEC_FULL.md` 11; operations `main`, `resolve` and `print_usage` of the command line.
-/

namespace MethodPrint.CommandLine

/-- The version of the program. -/
def version : String := "0.1.0"

/-- The name under which the program speaks of itself. -/
def programName : String := "dex-fingerprint"

/-- The line with name and version. -/
def versionText : String := "dex-fingerprint v" ++ version ++ "\n"

/-- How the program is used. -/
def usageText (program : String) : String :=
  versionText ++ "\nUsage:\n" ++
  "  " ++ program ++
    " <CORPUS.json> <METHOD_ID> [--max-sets N] [--opcodes N] [--exhaustive-limit N] [--json]\n" ++
  "  " ++ program ++ " <CORPUS.json> --resolve <FILE|->\n" ++
  "  " ++ program ++ " --version\n" ++
  "\nOptions:\n" ++
  "  --max-sets N           Return at most N fingerprints (default: 8)\n" ++
  "  --opcodes N            Use the first N opcodes as features (default: 16)\n" ++
  "  --exhaustive-limit N   Exhaustive search for methods with at most N features (default: 24)\n" ++
  "  --json                 Print the report as JSON\n" ++
  "  --resolve, -r FILE     Resolve a fingerprint read from FILE, or stdin with '-'\n" ++
  "  --verbose              Enable debug logging\n" ++
  "  --version, -v          Show version information\n"

/-- What the program can read: the contents of files, and the standard input. -/
structure Sources where
  file : String → Option String
  input : Option String

/-- What a run of the program leaves. -/
structure Result where
  /-- The exit status. -/
  exit : Nat := 0
  output : String := ""
  log : List LogLine := []
  /-- The error that the run ends with. -/
  error : Option String := none

namespace Result

/-- A run that ends with an error. -/
def failure (message : String) : Result := { exit := 1, error := some message }

/-- A result with log lines before its own. -/
def after (lines : List LogLine) (result : Result) : Result :=
  { result with log := lines ++ result.log }

end Result

/-- The predicate that a run is to resolve. -/
def Sources.predicate (sources : Sources) (source : String) : Except String String :=
  if source = "-" then
    match sources.input with
    | some text => .ok text
    | none => .error "Failed to read predicate from stdin"
  else
    match sources.file source with
    | some text => .ok text
    | none => .error ("Failed to read predicate file: " ++ source)

/-- The result of resolving a predicate. -/
def ofResolution : Except FingerprintError Outcome → Result
  | .ok (.resolution resolution) => { output := resolution.text }
  | .ok (.report report) => { output := report.text }
  | .error .matchNotFound => { exit := 1, output := "Fingerprint not found in the corpus.\n" }
  | .error error => .failure error.message

/-- The result of fingerprinting a method. A method that is identical to another one has an exit
status of its own. -/
def ofReport (json : Bool) (method : MethodId) : Except FingerprintError Outcome → Result
  | .ok (.report report) =>
    { output := if json then report.stored.prettyText ++ "\n" else report.text }
  | .ok (.resolution resolution) => { output := resolution.text }
  | .error (.noDistinguishingSet _ twins) =>
    { exit := 2
      output := "No unique fingerprint possible for " ++ method.text ++ "\n" ++
        String.join (twins.map fun twin ↦
          "  structurally identical to " ++ twin.text ++ "\n") }
  | .error error => .failure error.message

/-- Does a job in a session. -/
def runJob (session : Session) (job : Job) : Except FingerprintError Outcome := do
  (← session.spawn job).wait

/-- Resolves the predicate from some source in a session. -/
def runResolve (sources : Sources) (session : Session) (source : String) : Result :=
  match sources.predicate source with
  | .error message => .failure message
  | .ok text => ofResolution (runJob session (.resolve text))

/-- Fingerprints a method in a session with a snapshot. -/
def runFingerprint (session : Session) (snapshot : Snapshot) (json : Bool) (method : MethodId) :
    Result :=
  (ofReport json method (runJob session (.fingerprint method))).after
    (.info ("Fingerprinting " ++ method.text ++ " in corpus " ++ snapshot.corpusId) ::
      tellAnalysis snapshot.index session.settings.solver session.evaluator method)

/-- Does what a run asks for with a corpus. -/
def runCorpus (sources : Sources) (options : Options) (corpus : Corpus) : Result :=
  let (session, loaded) := Session.open options.settings corpus
  Result.after (tellLoad options.settings.window corpus loaded)
    (match loaded with
    | .error error => .failure error.message
    | .ok snapshot =>
      match options.resolveFrom, options.method with
      | some source, _ => runResolve sources session source
      | none, some method => runFingerprint session snapshot options.json method
      | none, none => .failure "Missing METHOD_ID")

/-- Does what a run asks for. -/
def runOptions (sources : Sources) (options : Options) : Result :=
  match Corpus.ofFile options.corpusPath (sources.file options.corpusPath) with
  | .error error => (Result.failure error.message).after (tellFile options.corpusPath none)
  | .ok corpus =>
    (runCorpus sources options corpus).after (tellFile options.corpusPath (some corpus))

/-- Does what a command line asks for. Details are logged only if asked for. -/
def run (sources : Sources) (arguments : List String) : Result :=
  let result :=
    match parse arguments with
    | .error fault => .failure fault.message
    | .ok .version => { output := versionText }
    | .ok .usage => { output := usageText programName }
    | .ok (.run options) => runOptions sources options
  if isVerbose arguments then result
  else { result with log := result.log.filter (·.level != .debug) }

end MethodPrint.CommandLine
