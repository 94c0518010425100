import StochasticGame.CommandLine.Response

/-!
# StochasticGame.Main

**The command line program.** Opens and reads the files that a command names,
carries the command out and writes what it yields.
-/

namespace StochasticGame.CommandLine

/-- The failure that the system reports. -/
def failureOfError : IO.Error → FileFailure
  | .noFileOrDirectory .. => .notFound
  | .inappropriateType _ code details =>
    if code = 21 then .isDirectory else if code = 20 then .notDirectory else .other details
  | .invalidArgument _ code details => if code = 36 then .nameTooLong else .other details
  | e => .other (toString e)

/-- Open a file and read it if it can be opened. -/
def openPath (path : String) : BaseIO FileState := do
  match ← (IO.FS.Handle.mk path .read).toBaseIO with
  | .error e => return .error (failureOfError e)
  | .ok handle =>
    match ← handle.readBinToEnd.toBaseIO with
    | .error e => return .ok (.error (failureOfError e))
    | .ok bytes => return .ok (.ok bytes)

/-- Write files in order up to the first one that cannot be written. -/
def writePaths : List (String × String) → BaseIO (Option FileFailure)
  | [] => return none
  | (path, text) :: rest => do
    match ← (IO.FS.writeFile path text).toBaseIO with
    | .error e => return some (failureOfError e)
    | .ok () => writePaths rest

/-- The number of sweeps that count as a second of time budget. -/
def sweepsPerSecond : Nat := 1000000

/-- Carry out a command line. -/
def respond (words : List String) : BaseIO Response := do
  match readCommand words with
  | .error e => return e.response
  | .ok command =>
    let config ← command.input.config.mapM openPath
    let transitions ← openPath command.input.transitions
    let labels ← openPath command.input.labels
    match command.run sweepsPerSecond { config, transitions, labels } with
    | .error failure => return failure.response
    | .ok product =>
      match ← writePaths product.files with
      | none => return product.response
      | some failure => return (CommandFailure.unwritable failure).response

end StochasticGame.CommandLine

/-- The program. -/
def main (words : List String) : IO UInt32 := do
  let response ← StochasticGame.CommandLine.respond words
  (← IO.getStdout).putStr response.output
  (← IO.getStderr).putStr response.errors
  return response.exitCode.toUInt32
