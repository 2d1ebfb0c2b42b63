import QueryMachine.Listing
import QueryMachine.Log.Buffer
import QueryMachine.SelfCheck

/-!
# The command line

`sqlvm FILE` compiles a template file and prints the generated statement.
Diagnostics and log lines go to the error stream.

The arguments are read from left to right. A flag is given at most once, a value
does not begin with a dash unless it is attached to its flag, and after `--`
every argument is a file.
-/

namespace QueryMachine.CommandLine

/-- The arguments of a run. -/
structure Arguments where
  /-- The dialect to generate for. -/
  language : Option String := none
  /-- The template file. -/
  file : Option String := none
  listLanguages : Bool := false
  strictLabels : Bool := false
  verbose : Bool := false
  deriving DecidableEq, Repr

/-- What the arguments ask for. -/
inductive Request where
  | run (args : Arguments)
  | help
  | version
  /-- The arguments make no sense. -/
  | misuse
  deriving DecidableEq, Repr

/-- The version of the program, under its name. -/
def version : String := "sqlvm 0.1.0"

/-! ## Reading arguments -/

/-- A flag of the command line. -/
inductive Flag where
  | language
  | listLanguages
  | strictLabels
  | verbose
  | help
  | version
  deriving DecidableEq, Repr

/-- The flag of a long name. -/
def Flag.ofLong? : String → Option Flag
  | "language" => some language
  | "list-languages" => some listLanguages
  | "strict-labels" => some strictLabels
  | "verbose" => some verbose
  | "help" => some help
  | "version" => some version
  | _ => none

/-- The flag of a letter. -/
def Flag.ofShort? : Char → Option Flag
  | 'l' => some language
  | 'v' => some verbose
  | 'h' => some help
  | 'V' => some version
  | _ => none

/-- Where reading the arguments stands. -/
structure Reader where
  args : Arguments := {}
  /-- The last argument was a flag that wants a value. -/
  wantsValue : Bool := false
  /-- Every further argument is a file. -/
  filesOnly : Bool := false

namespace Reader

/-- Sets the language, once. -/
def setLanguage (r : Reader) (name : String) : Except Request Reader :=
  match r.args.language with
  | none => .ok { r with args := { r.args with language := some name }, wantsValue := false }
  | some _ => .error .misuse

/-- Sets the file, once; its name is not empty. -/
def setFile (r : Reader) (name : String) : Except Request Reader :=
  match r.args.file with
  | none =>
    if name.isEmpty then .error .misuse
    else .ok { r with args := { r.args with file := some name } }
  | some _ => .error .misuse

/-- Sets a flag that has no value, once. -/
def setFlag (r : Reader) : Flag → Except Request Reader
  | .listLanguages =>
    if r.args.listLanguages then .error .misuse
    else .ok { r with args := { r.args with listLanguages := true } }
  | .strictLabels =>
    if r.args.strictLabels then .error .misuse
    else .ok { r with args := { r.args with strictLabels := true } }
  | .verbose =>
    if r.args.verbose then .error .misuse
    else .ok { r with args := { r.args with verbose := true } }
  | .help => .error .help
  | .version => .error .version
  | .language => .ok { r with wantsValue := true }

/-- Reads `--name` or `--name=value`, without the dashes. -/
def readLong (r : Reader) (text : List Char) : Except Request Reader :=
  let (name, rest) := text.span (· ≠ '=')
  match Flag.ofLong? (String.ofList name), rest with
  | none, _ => .error .misuse
  | some .language, _ :: value => r.setLanguage (String.ofList value)
  | some _, _ :: _ => .error .misuse
  | some flag, [] => r.setFlag flag

/-- Reads the letters of `-abc`; what follows the letter of a flag with a value
is its value, with or without `=`. -/
def readShort (r : Reader) : List Char → Except Request Reader
  | [] => .ok r
  | c :: rest =>
    match Flag.ofShort? c with
    | none => .error .misuse
    | some .language =>
      match rest with
      | [] => .ok { r with wantsValue := true }
      | '=' :: value => r.setLanguage (String.ofList value)
      | value => r.setLanguage (String.ofList value)
    | some flag =>
      match r.setFlag flag with
      | .ok r => readShort r rest
      | .error request => .error request

/-- Reads one argument. A flag is no value of the flag before it. -/
def read (r : Reader) (arg : String) : Except Request Reader :=
  if r.filesOnly then r.setFile arg
  else
    match arg.toList with
    | ['-', '-'] => if r.wantsValue then .error .misuse else .ok { r with filesOnly := true }
    | '-' :: '-' :: text => if r.wantsValue then .error .misuse else r.readLong text
    | '-' :: c :: text => if r.wantsValue then .error .misuse else r.readShort (c :: text)
    | _ => if r.wantsValue then r.setLanguage arg else r.setFile arg

/-- What the arguments ask for when all are read. -/
def finish (r : Reader) : Request :=
  if r.wantsValue then .misuse
  else if r.args.file.isNone ∧ ¬ r.args.listLanguages then .misuse
  else .run r.args

end Reader

/-- What the arguments ask for. -/
def request (args : List String) : Request :=
  match args.foldlM Reader.read {} with
  | .ok r => r.finish
  | .error request => request

/-! ## Running -/

/-- A part of what goes to the error stream. -/
inductive Line where
  | log (record : Record)
  /-- A text that may show how long the work took. -/
  | text (text : Clock → String)

/-- A run: what went to the error stream so far, and the message that ends the
run or its result. -/
abbrev Run (α : Type) : Type := ExceptT String (StateM (Array Line)) α

namespace Run

/-- Logs records. -/
def log (records : Array Record) : Run Unit := modify (· ++ records.map .log)

/-- Logs notices that belong to no template. -/
def notices (notices : Array Notice) : Run Unit := log (plainRecords notices)

/-- Writes a text. -/
def say (text : Clock → String) : Run Unit := modify (·.push (.text text))

end Run

/-- The report of a failed compilation. -/
def failure (name source : String) (error : CompileError) : String :=
  match error.span? with
  | some span => (Listing.mk name source).report span error.codedMessage
  | none => "error: " ++ error.codedMessage

/-- What a verbose run says about a region. -/
def regionSummary (index : Nat) (r : RegionReport) : String :=
  "  region " ++ toString (index + 1) ++ " at " ++ r.span.text ++ ": " ++
  toString r.instructionCount ++ " instruction(s), " ++
  toString r.labels.size ++ " label(s), " ++
  toString r.thunksResolved ++ " thunk(s) resolved\n" ++
  String.join (r.fallbacks.toList.map fun label =>
    "    undefined label '" ++ label ++ "' used as jump target\n")

/-- What a verbose run says about a compilation. -/
def summary (c : Compiled) (clock : Clock) : String :=
  c.sourceName ++ ": " ++ toString c.regionCount ++ " region(s), " ++
  toString c.tokenCount ++ " tokens, " ++ clock.compilingShort ++ " ms\n" ++
  String.join (c.reports.toList.mapIdx regionSummary)

/-- Compiles the file of the arguments; gives the output. -/
def generate (registry : Registry) (preferences : CompilerPreferences) (args : Arguments)
    (status : String → FileStatus) : Run String := do
  let language := args.language.getD preferences.defaultDialect
  let d ← (registry.get language).mapError fun error => "error: " ++ error.message
  let some path := args.file | throw "error: no template file given"
  let (loaded, notices) := SourceFile.load path (status path) true
  Run.notices notices
  let file ← loaded.mapError fun error => "error: " ++ error.message
  let (result, notices) := compile d preferences path file.source
  Run.log (recordsOf path notices)
  let compiled ← result.mapError (failure path file.source)
  if args.verbose then Run.say (summary compiled)
  Run.notices #[.delivered path language]
  return compiled.output ++ "\n"

/-- A whole run; gives what is printed. -/
def run (preferences : CompilerPreferences) (args : Arguments)
    (status : String → FileStatus) : Run String := do
  SelfCheck.start
  Run.notices #[.loggingReady]
  let checked ← SelfCheck.stages
  Run.notices (SelfCheck.stagesNotices checked)
  let registry ← Registry.builtin.mapError fun error => "error: " ++ error.message
  Run.notices Registry.builtinNotices
  if args.listLanguages then
    return String.join (registry.names.map (· ++ "\n"))
  generate registry
    { preferences with strictLabels := preferences.strictLabels || args.strictLabels }
    args status

/-- How a run ends. -/
structure Outcome where
  exitCode : Nat
  stdout : String
  stderr : Clock → String

/-- A line as it is written: log lines only if the log keeps them. -/
def Line.write (logging : LoggingPreferences) (clock : Clock) : Line → String
  | .text shown => shown clock
  | .log record =>
    if logging.console then
      match Log.filter logging.level (record.event logging.showTemplate clock) with
      | some e => (if logging.structured then e.formatJson else e.format) ++ "\n"
      | none => ""
    else ""

/-- The logging preferences of a run. -/
def loggingFor (env : Environment) (args : Arguments) : LoggingPreferences :=
  let logging := LoggingPreferences.ofEnvironment env
  if args.verbose then { logging with minimum := .debug } else logging

/-- Executes the arguments in an environment, with what the system says about
files. -/
def execute (env : Environment) (args : Arguments) (status : String → FileStatus) : Outcome :=
  let logging := loggingFor env args
  let (result, lines) := run (CompilerPreferences.ofEnvironment env) args status #[]
  let written (clock : Clock) : String := String.join (lines.toList.map (·.write logging clock))
  match result with
  | .ok output => ⟨0, output, written⟩
  | .error message => ⟨1, "", fun clock => written clock ++ message ++ "\n"⟩

end QueryMachine.CommandLine
