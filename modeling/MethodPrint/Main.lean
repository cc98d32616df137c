import Std.Time.DateTime.Timestamp
import MethodPrint.CommandLine.Run

/-!
# The program

Reads what a command line asks for and prints what comes of it.

`SPEC_FULL.md` 11.
-/

namespace MethodPrint.CommandLine

/-- The contents of a file, if it can be read as text. -/
def contents? (path : String) : IO (Option String) := do
  try
    return some (← IO.FS.readFile path)
  catch _ =>
    return none

/-- Reads the standard input to its end. -/
partial def readInput (stream : IO.FS.Stream) (read : ByteArray) : IO ByteArray := do
  let chunk ← stream.read 65536
  if chunk.isEmpty then return read else readInput stream (read ++ chunk)

/-- The sources that a command line reads from. -/
def sourcesOf (arguments : List String) : IO Sources := do
  match parse arguments with
  | .ok (.run options) =>
    let corpus ← contents? options.corpusPath
    match options.resolveFrom with
    | none => return { file := fun _ ↦ corpus, input := none }
    | some "-" =>
      let bytes ← readInput (← IO.getStdin) ByteArray.empty
      return { file := fun _ ↦ corpus, input := String.fromUTF8? bytes }
    | some path =>
      let predicate ← contents? path
      return { file := fun asked ↦ if asked = options.corpusPath then corpus else predicate
               input := none }
  | _ => return { file := fun _ ↦ none, input := none }

/-- Writes what a run leaves: the log and the error to the standard error, with the time in front
of each log line. -/
def report (result : Result) : IO Unit := do
  let now ← Std.Time.Timestamp.now
  for line in result.log do
    IO.eprintln (toString now.toSecondsSinceUnixEpoch.val ++ " " ++ line.display)
  IO.print result.output
  match result.error with
  | some message => IO.eprintln ("Error: " ++ message)
  | none => pure ()

end MethodPrint.CommandLine

open MethodPrint.CommandLine in
/-- Runs the program on its arguments. -/
def main (arguments : List String) : IO UInt32 := do
  let result := run (← sourcesOf arguments) arguments
  report result
  return UInt32.ofNat result.exit
