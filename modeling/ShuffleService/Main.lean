import ShuffleService.Launch

/-!
# The command line

The outer layer of the programs: files are read and written here, and everything else is decided by
`Program.plan` and `Program.service`. Which program runs is told by the name of the executable. A
program that serves is told to stop by the end of its standard input.
-/

namespace ShuffleService

/-- What stands at a path. -/
def fileAt (path : String) : IO FileEntry := do
  try
    return .file (← IO.FS.readBinFile path).toList
  catch _ =>
    return .missing

/-- Wait for the end of standard input. -/
partial def waitForEnd (stdin : IO.FS.Stream) : IO Unit := do
  let line ← stdin.getLine
  if !line.isEmpty then waitForEnd stdin

/-- Serve until told to stop. -/
def Program.serve (p : Program) (s : Service) : IO Unit := do
  IO.FS.createDirAll s.log.path
  let log ← IO.FS.Handle.mk (s.log.path ++ "/" ++ p.logName) .append
  let write (message : String) : IO Unit := do
    if s.log.level.showsInfo then
      log.putStrLn message
      log.flush
  write s.started
  waitForEnd (← IO.getStdin)
  write s.stopping

end ShuffleService

open ShuffleService

/-- Run a program. -/
def main (args : List String) : IO UInt32 := do
  let name := (← IO.appPath).fileName.getD ""
  let p := (Program.ofName? name).getD .shuffleServer
  match p.plan args with
  | .finish code output =>
    (← IO.getStdout).putStr output
    return code.toUInt32
  | .serve o =>
    let file ← o.config.mapM fileAt
    match p.service o file with
    | .error _ => return 1
    | .ok s =>
      try
        p.serve s
        return 0
      catch _ => return 1
