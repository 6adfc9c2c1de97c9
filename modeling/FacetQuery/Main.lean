import FacetQuery.CommandLine

/-!
# Main

The program: it fetches the file that the plan asks for, prints, and exits.
-/

open FacetQuery CommandLine

/-- The variable of the environment that may name the directory of the schema. -/
def environmentVariable : String := "QUERY_DSL_CONFIGURATION"

/-- `errorNumber code` is the system's number of an error, which may come negated. -/
def errorNumber (code : UInt32) : Nat :=
  min code.toNat (-code).toNat

/-- `fault e` is what an error of the system says about a file. -/
def fault : IO.Error → FileFault
  | .noFileOrDirectory .. => .missing
  | .permissionDenied .. => .denied
  | e@(.inappropriateType _ code _) =>
      if errorNumber code = 20 then .notDirectory
      else if errorNumber code = 21 then .isDirectory
      else .other (toString e)
  | e@(.invalidArgument _ code _) =>
      if errorNumber code = 36 then .nameTooLong else .other (toString e)
  | e => .other (toString e)

/-- `fetch path` reads a file. -/
def fetch (path : String) : IO FileContent := do
  try
    return .bytes (← IO.FS.readBinFile path)
  catch e =>
    return .unreadable (fault e)

/-- `finish output` prints and gives the exit code. -/
def finish (output : Output) : IO UInt32 := do
  IO.print output.stdout
  IO.eprint output.stderr
  return UInt32.ofNat output.status

/-- The program. -/
def main (args : List String) : IO UInt32 := do
  match plan args (← IO.getEnv environmentVariable) with
  | .finish output => finish output
  | .withFile path output => finish (output (← fetch path))
