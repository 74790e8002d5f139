import HierarchicalTuring.CommandLine.Run

/-! # The program

The outer layer of the command line: it reads the directory and the standard input that the
arguments need, and prints the report.
-/

set_option autoImplicit false

namespace HierarchicalTuring.CommandLine

/-- Reads bytes to the end of the standard input. -/
partial def readInput (read : ByteArray) : IO ByteArray := do
  let chunk ← (← IO.getStdin).read 65536
  if chunk.isEmpty then return read else readInput (read ++ chunk)

/-- Reads a directory with the contents of its machine files; other files are left out. -/
def readDirectory (path : String) : IO Opened := do
  try
    let found ← ((← IO.currentDir) / path).readDir
    let mut entries : List (Bytes × Entry) := []
    for entry in found do
      let name := bytesOf entry.fileName
      if ← entry.path.isDir then
        entries := (name, .directory) :: entries
      else if (machineOfFile? name).isSome then
        let content ← IO.FS.readBinFile entry.path
        entries := (name, .file content.data.toList) :: entries
    return .ok ⟨entries⟩
  catch e =>
    match e with
    | .noFileOrDirectory .. => return .error .notFound
    | _ => return .error .notADirectory

/-- Tries a run with more and more patience. -/
partial def respondAtLast (patience : Nat) (arguments : List String) (s : Surroundings) : Report :=
  match respond patience arguments s with
  | some report => report
  | none => respondAtLast (2 * patience) arguments s

end HierarchicalTuring.CommandLine

open HierarchicalTuring.CommandLine in
/-- Runs the command line on the arguments. -/
def main (arguments : List String) : IO UInt32 := do
  let opened ←
    match directoryOf? arguments with
    | some path => readDirectory path
    | none => pure (.error .notFound)
  let input ←
    if readsInput arguments && !(← (← IO.getStdin).isTty) then
      pure (some (← readInput .empty).data.toList)
    else pure none
  let report := respondAtLast 10000 arguments ⟨fun _ => opened, input⟩
  (← IO.getStderr).putStr (lines report.messages)
  (← IO.getStdout).putStr report.output
  return report.exitCode.toUInt32
