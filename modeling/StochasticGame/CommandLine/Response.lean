import StochasticGame.CommandLine.Run

/-!
# StochasticGame.CommandLine.Response

**What a run of the program shows.** An exit code and the texts of both output
streams. An error is reported on a line of its own that starts with `error: `; a
fault of the program is not.
-/

namespace StochasticGame.CommandLine

/-- How a run of the program looks from outside. -/
structure Response where
  /-- The exit code. -/
  exitCode : Nat
  /-- The text printed. -/
  output : String := ""
  /-- The text printed about errors. -/
  errors : String := ""
  deriving DecidableEq

/-- The line that reports an error. -/
def errorLine (message : String) : String := "error: " ++ message ++ "\n"

/-- A short description of the program. -/
def usage : String :=
  "Exact values of simple stochastic games\n\nUsage: " ++ programName ++
    " [OPTIONS] <solve|export|stats> -t <FILE> -l <FILE>\n"

/-- The response to a command line that is not carried out. -/
def ArgumentError.response (e : ArgumentError) : Response :=
  match e, e.message? with
  | .helpRequested, _ => { exitCode := 0, output := usage }
  | _, some message => { exitCode := 2, errors := errorLine message }
  | _, none => { exitCode := 2, errors := usage }

/-- The response to a command that fails. -/
def CommandFailure.response (f : CommandFailure) : Response :=
  { exitCode := f.exitCode
    errors := if f.isFault then f.message ++ "\n" else errorLine f.message }

/-- The response to a command whose files are written. -/
def Product.response (p : Product) : Response := { exitCode := 0, output := p.output }

end StochasticGame.CommandLine
