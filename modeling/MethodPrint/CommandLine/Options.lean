import MethodPrint.Session.Basic

/-!
# Command line options

The arguments of the program: options, which may stand anywhere, and positional arguments. Among
several values for one option the last counts. The first fault from left to right is reported,
unless the version is asked for before it.

`SPEC_FULL.md` 9 and 11; operations `parse_args`, `value_of` and `parse_count`.
-/

namespace MethodPrint.CommandLine

/-- What a run works on. -/
structure Options where
  corpusPath : String
  method : Option MethodId
  /-- Where the predicate to resolve is read from; a dash is the standard input. -/
  resolveFrom : Option String
  json : Bool
  settings : Settings
  deriving DecidableEq

/-- What a command line asks for. -/
inductive Command where
  | version
  | usage
  | run (options : Options)
  deriving DecidableEq

/-- What is wrong with a command line. -/
inductive ArgumentFault where
  | unknown (argument : String)
  | unexpected (argument : String)
  | missingValue (option : String)
  | invalidValue (option value : String)
  deriving DecidableEq

/-- The text of an argument fault. -/
def ArgumentFault.message : ArgumentFault → String
  | .unknown argument => "Unknown argument: " ++ argument
  | .unexpected argument => "Unexpected argument: " ++ argument
  | .missingValue option => "Missing value for " ++ option
  | .invalidValue option value => "Invalid value for " ++ option ++ ": " ++ value

/-- The count that an option's value writes: digits after an optional plus sign, up to 64 bits. -/
def count? (value : String) : Option Nat :=
  let digits :=
    match value.toList with
    | '+' :: digits => digits
    | digits => digits
  (Text.decimal? digits).filter (· < UInt64.size)

/-- An option that takes a count. -/
inductive CountOption where
  | maxSets
  | opcodes
  | exhaustiveLimit
  deriving DecidableEq

namespace CountOption

/-- The option that an argument is. -/
def ofArgument? : String → Option CountOption
  | "--max-sets" => some .maxSets
  | "--opcodes" => some .opcodes
  | "--exhaustive-limit" => some .exhaustiveLimit
  | _ => none

/-- The settings with the option's value. -/
def apply (settings : Settings) (value : Nat) : CountOption → Settings
  | .maxSets => { settings with solver := { settings.solver with maxSets := value } }
  | .opcodes => { settings with window := value }
  | .exhaustiveLimit =>
    { settings with solver := { settings.solver with exhaustiveLimit := value } }

end CountOption

/-- What is known of a command line while its arguments are read. -/
structure Draft where
  positionals : List String := []
  resolveFrom : Option String := none
  json : Bool := false
  settings : Settings := {}

/-- What the arguments ask for once all of them are read. -/
def Draft.finish (draft : Draft) : Except ArgumentFault Command :=
  let options (corpusPath : String) (method : Option MethodId) : Options :=
    { corpusPath, method, resolveFrom := draft.resolveFrom, json := draft.json,
      settings := draft.settings }
  match draft.positionals with
  | [] => .ok .usage
  | [corpusPath] =>
    if draft.resolveFrom.isSome then .ok (.run (options corpusPath none)) else .ok .usage
  | [corpusPath, method] => .ok (.run (options corpusPath (some ⟨method⟩)))
  | _ :: _ :: extra :: _ => .error (.unexpected extra)

/-- Whether an argument asks for the version. -/
def isVersion (argument : String) : Bool := argument == "--version" || argument == "-v"

/-- Whether an argument says what to resolve. -/
def isResolve (argument : String) : Bool := argument == "--resolve" || argument == "-r"

/-- Whether an argument looks like an option. A single dash is positional. -/
def isOption (argument : String) : Bool :=
  argument.toList.head? == some '-' && argument != "-"

/-- Reads arguments into a draft. -/
def Draft.read (draft : Draft) : List String → Except ArgumentFault Command
  | [] => draft.finish
  | argument :: rest =>
    if isVersion argument then .ok .version
    else if isResolve argument then
      match rest with
      | [] => .error (.missingValue argument)
      | value :: rest => { draft with resolveFrom := some value }.read rest
    else
      match CountOption.ofArgument? argument with
      | some option =>
        match rest with
        | [] => .error (.missingValue argument)
        | value :: rest =>
          match count? value with
          | none => .error (.invalidValue argument value)
          | some n => { draft with settings := option.apply draft.settings n }.read rest
      | none =>
        if argument = "--json" then { draft with json := true }.read rest
        else if argument = "--verbose" then draft.read rest
        else if isOption argument then .error (.unknown argument)
        else { draft with positionals := draft.positionals ++ [argument] }.read rest

/-- What a command line asks for. -/
def parse (arguments : List String) : Except ArgumentFault Command := Draft.read {} arguments

/-- Whether a command line asks for all log lines, be it as an option or as a value. -/
def isVerbose (arguments : List String) : Bool := arguments.contains "--verbose"

/-- No arguments ask for the usage text. -/
theorem parse_nil : parse [] = .ok .usage := rfl

end MethodPrint.CommandLine
