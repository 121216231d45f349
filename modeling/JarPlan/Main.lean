import JarPlan.CommandLine.Run
/-!
# The program

Reads the files a command names, runs it, prints what it gives and ends with a status: zero for
success, that of the stop where there is no output, and two for arguments that ask for nothing.
-/

namespace JarPlan.CommandLine

/-- Why reading failed. -/
def readError : IO.Error → ReadError
  | .noFileOrDirectory _ _ _ => .notFound
  | .inappropriateType _ _ _ => .isDirectory
  | error => .other (toString error)

/-- Reads a file. -/
def readFile (path : Path) : IO FileText := do
  try
    return .ofBytes (← IO.FS.readBinFile path.spelling).toList
  catch error => return .error (readError error)

/-- Runs a command on the files that are there. -/
def runIO (command : Command) : IO UInt32 := do
  let inputs := command.action.inputs
  let texts ← inputs.mapM readFile
  let file (path : Path) : FileText := ((inputs.zip texts).lookup path).getD (.error .notFound)
  let around : Surroundings :=
    ⟨file, ← IO.getEnv OutputRoots.outDirVariable, ⟨(← IO.currentDir).toString⟩⟩
  match run around command with
  | .ok output =>
    IO.print output.stdout
    IO.eprint output.stderr
    return 0
  | .error stop =>
    IO.eprint stop.render
    return stop.status

end JarPlan.CommandLine

open JarPlan.CommandLine in
def main (args : List String) : IO UInt32 := do
  match parse? args with
  | some (.run command) => runIO command
  | some .showVersion =>
    IO.println version
    return 0
  | some .showHelp =>
    IO.print (lines help)
    return 0
  | none => return 2
