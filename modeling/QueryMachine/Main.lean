import QueryMachine.CommandLine
import Std.Time.DateTime.Timestamp

/-!
# The program

Reads the arguments, the environment and the template file, runs the command
line and writes its two streams. Everything else is decided elsewhere.
-/

namespace QueryMachine.Program

/-- The variables the program looks at. -/
def settings : List String :=
  ["SQLVM_DEFAULT_DIALECT", "SQLVM_STRICT_LABELS", "SQLVM_TRIM_OUTPUT",
   "SQLVM_COLLECT_REGION_REPORTS", "SQLVM_LOGGING_USE_STRUCTURED",
   "SQLVM_LOGGING_ENABLE_CONSOLE", "SQLVM_LOGGING_MIN_LEVEL",
   "SQLVM_LOGGING_INCLUDE_FILE_CONTEXT"]

/-- The environment of the process. -/
def environment : IO Environment := do
  let values ← settings.mapM fun name => do return (name, ← IO.getEnv name)
  return fun name => (values.lookup name).join

/-- What the system's refusal to read a file says about it. -/
def refusal : IO.Error → FileStatus
  | .noFileOrDirectory .. => .missing
  | .permissionDenied .. => .denied
  | .inappropriateType _ code details =>
    if code = 21 then .special
    else .unreachable (details ++ " (os error " ++ toString code ++ ")")
  | .invalidArgument _ code details =>
    .unreachable (details ++ " (os error " ++ toString code ++ ")")
  | error => .unreachable (toString error)

/-- What the system says about a path. -/
def statusOf (path : String) : IO FileStatus := do
  try
    return .regular (← IO.FS.readBinFile path)
  catch error => return refusal error

/-- A number of nanoseconds in milliseconds, with `places` places. -/
def milliseconds (nanoseconds places : Nat) : String :=
  let unit := Nat.pow 10 (6 - places)
  let scaled := (nanoseconds + unit / 2) / unit
  let whole := toString (scaled / Nat.pow 10 places)
  let part := toString (scaled % Nat.pow 10 places)
  whole ++ "." ++ String.ofList (List.replicate (places - part.length) '0') ++ part

/-- Runs the arguments of a request. -/
def runWith (args : CommandLine.Arguments) : IO UInt32 := do
  let env ← environment
  let start ← IO.monoNanosNow
  let status ← match args.file with
    | some path => statusOf path
    | none => pure .missing
  let loaded ← IO.monoNanosNow
  let outcome := CommandLine.execute env args fun _ => status
  (← IO.getStdout).putStr outcome.stdout
  let done ← IO.monoNanosNow
  let now ← Std.Time.Timestamp.now
  let clock : Clock :=
    { now := now.toSecondsSinceUnixEpoch.val.toNat
      loading := milliseconds (loaded - start) 2
      compiling := milliseconds (done - loaded) 3
      compilingShort := milliseconds (done - loaded) 2 }
  (← IO.getStderr).putStr (outcome.stderr clock)
  return outcome.exitCode.toUInt32

/-- How the program is called. -/
def usage : String :=
  "Usage: sqlvm [OPTIONS] [FILENAME]\n\n" ++
  "Options:\n" ++
  "  -l, --language <NAME>  SQL language to generate\n" ++
  "      --list-languages   Print the available languages and exit\n" ++
  "      --strict-labels    Fail on jumps to undefined labels\n" ++
  "  -v, --verbose          Debug logging and a per-region summary on stderr\n" ++
  "  -h, --help             Print help\n" ++
  "  -V, --version          Print version\n"

/-- Does what the arguments ask for; gives the exit code. -/
def run (args : List String) : IO UInt32 := do
  match CommandLine.request args with
  | .run args => runWith args
  | .help => IO.print usage; return 0
  | .version => IO.println CommandLine.version; return 0
  | .misuse => IO.eprint usage; return 2

end QueryMachine.Program

/-- Runs the program. -/
def main (args : List String) : IO UInt32 :=
  QueryMachine.Program.run args
