import EsOptimizer.CommandLine

/-!
# Entry point

Reads the files of a run, and writes or prints its result.
-/

open EsOptimizer

/-- The file at a path. -/
def readFileAt (path : String) : IO File := do
  match ← (IO.FS.readFile path).toBaseIO with
  | .ok content => return .text content
  | .error (.noFileOrDirectory ..) => return .missing
  | .error _ => return .unreadable

/-- Writes the result of a run to where it goes. -/
def deliver (output : Option String) (text : String) : IO (Except CommandFailure Unit) := do
  match output with
  | none =>
    IO.print text
    return .ok ()
  | some path =>
    match ← (IO.FS.writeFile path text).toBaseIO with
    | .ok _ => return .ok ()
    | .error _ => return .error .unwritable

/-- A run with the given arguments. -/
def runCommand (args : List String) : IO (Except CommandFailure Unit) := do
  match Command.ofArgs args with
  | .error e => return .error e
  | .ok c =>
    match c.result (← readFileAt Command.configPath) (← readFileAt c.input) with
    | .error e => return .error e
    | .ok text => deliver c.output text

def main (args : List String) : IO UInt32 := do
  match ← runCommand args with
  | .ok _ => return 0
  | .error e =>
    IO.eprintln ("Error: " ++ e.message)
    return 1
