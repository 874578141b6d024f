import ScriptGraph.Command

/-!
# The program

Reads the files that the arguments name, carries the request out and writes what it left behind.
-/

namespace ScriptGraph

/-- The content of a file, if it can be read. -/
def readFile? (path : String) : IO (Option (List UInt8)) := do
  try
    let bytes ← IO.FS.readBinFile path
    return some bytes.toList
  catch _ => return none

/-- The bytes of standard input. -/
partial def readInput (read : List UInt8) : IO (List UInt8) := do
  let chunk ← (← IO.getStdin).read 65536
  if chunk.isEmpty then return read else readInput (read ++ chunk.toList)

end ScriptGraph

open ScriptGraph in
/-- Runs the command. -/
def main (args : List String) : IO UInt32 := do
  match Request.ofArguments? args with
  | none =>
    IO.eprintln s!"usage: {programName} [-tgjV] [-k FILE] FILES..."
    return 2
  | some request =>
    let mut files : List (String × List UInt8) := []
    let mut input : List UInt8 := []
    for path in request.paths do
      if path = "-" then
        input ← readInput input
      else if let some bytes ← readFile? path then
        files := (path, bytes) :: files
    let known := files
    let session : Session := { files := fun path => known.lookup path, input := input }
    let outcome := request.run session
    IO.print outcome.stdout
    IO.eprint outcome.stderr
    return outcome.code.toUInt32
