import Quarry.Command

/-!
# Program

Reads the files and the input that the command needs, runs it, and prints the plan. Journal lines
and failures go to the error stream.
-/

namespace Quarry

/-- The text of a file, if it can be read. -/
def fileText (path : String) : IO (Option String) := do
  try return String.fromUTF8? (← IO.FS.readBinFile path)
  catch _ => return none

/-- All octets of a stream. -/
partial def allOctets (stream : IO.FS.Stream) (soFar : ByteArray) : IO ByteArray := do
  let more ← stream.read 65536
  if more.isEmpty then return soFar else allOctets stream (soFar ++ more)

/-- What the options ask to be read. -/
def surroundings (e : Explain) : IO Surroundings := do
  let config ←
    match e.config with
    | some path => fileText path
    | none => pure none
  let model ← fileText e.model
  let input ←
    match e.criteria with
    | some _ => pure none
    | none => do
      let octets ← allOctets (← IO.getStdin) .empty
      pure (String.fromUTF8? octets)
  return ⟨fun path => if some path = e.config then config else model, input⟩

end Quarry

open Quarry in
def main (args : List String) : IO UInt32 := do
  let errors ← IO.getStderr
  match Explain.ofArguments? args with
  | none =>
    errors.putStrLn
      "usage: dsq explain --model <path> [--config <path>] [--criteria <json>] [--format json|text]"
    return 2
  | some e =>
    let s ← surroundings e
    let (result, after) := (e.run s : Action Unit CommandError String).run (.start ())
    for line in after.journal do
      errors.putStr (String.ofList line.render)
    match result with
    | .ok text =>
      let output ← IO.getStdout
      output.putStr text
      output.flush
      return 0
    | .error failure =>
      errors.putStrLn failure.message
      return 1
