import SnapshotLisp.CommandLine

/-!
The program itself: it reads the file it is asked for, if any, and prints the answer.
-/
namespace SnapshotLisp

/-- A file that is not there, or does not hold UTF-8, has no text. -/
def textOf? (path : String) : IO (Option String) := do
  try
    return String.fromUTF8? (← IO.FS.readBinFile path)
  catch _ =>
    return none

end SnapshotLisp

open SnapshotLisp in
def main (args : List String) : IO UInt32 := do
  let request := CommandLine.request args
  let text ← match request.file? with
    | some path => textOf? path
    | none => pure none
  let output := CommandLine.answer evaluationDepth (fun _ => text) request
  IO.print output.stdout
  IO.eprint output.stderr
  return output.exit.toUInt32
