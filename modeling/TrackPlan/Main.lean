import TrackPlan.CommandLine.Run

/-!
# The program

The command line of the program, with the files and streams of the system as its host. The
environment may name a configuration file for runs that name none.
-/

namespace TrackPlan

/-- Why the system refuses access. -/
def accessErrorOf : IO.Error → AccessError
  | .noFileOrDirectory .. => .notFound
  | .inappropriateType _ 20 _ => .notDirectory
  | .inappropriateType _ 21 _ => .isDirectory
  | .invalidArgument _ 36 _ => .nameTooLong
  | e => .other e.toString

/-- The files and streams of the system. -/
def Host.system : Host IO where
  readFile path := do
    try
      return .ok (← IO.FS.readBinFile path)
    catch e => return .error (accessErrorOf e)
  writeFile path bytes := do
    try
      IO.FS.writeBinFile path bytes
      return .ok ()
    catch e => return .error (accessErrorOf e)
  readInput := do (← IO.getStdin).readBinToEnd
  writeOutput bytes := do
    let out ← IO.getStdout
    out.write bytes
    out.flush

end TrackPlan

open TrackPlan in
/-- Executes the command line; errors are told on the standard error stream. -/
def main (args : List String) : IO UInt32 := do
  let outcome ← execute Host.system (← IO.getEnv "TRACKC_CONFIG") args
  match outcome with
  | .done => pure ()
  | .failed e =>
    IO.eprintln s!"Error: {e.message}"
    if let some cause := e.cause? then
      IO.eprintln s!"\nCaused by:\n    {cause}"
  | .misused e => IO.eprintln s!"error: {e.message}"
  return outcome.code
