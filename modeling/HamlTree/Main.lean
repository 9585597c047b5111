import HamlTree.CommandLine.Run

/-!
# The program

Reads the file that the command line names and leaves the rest to `CommandLine.Invocation.run`.
-/

namespace HamlTree.CommandLine

/-- What a path names on this machine. A path that leads through a file names nothing. -/
def readPath (path : String) : IO Content := do
  try
    return .bytes (← IO.FS.readBinFile path)
  catch
    | .inappropriateType _ 21 _ => return .ofDirectory
    | .inappropriateType _ _ _ => return .missing
    | .noFileOrDirectory _ _ _ => return .missing
    | e => return .unreadable e.toString

/-- Print what a run leaves behind. -/
def Outcome.emit (o : Outcome) : IO UInt32 := do
  (← IO.getStderr).putStr o.stderr
  (← IO.getStdout).putStr o.stdout
  return o.code.toUInt32

end HamlTree.CommandLine

open HamlTree.CommandLine in
/-- Run the command line. -/
def main (args : List String) : IO UInt32 :=
  match Invocation.ofArgs args with
  | .error reply => reply.outcome.emit
  | .ok i => do (i.run (← readPath i.path)).emit
