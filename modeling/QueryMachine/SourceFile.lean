import QueryMachine.Code
import QueryMachine.Limits
import QueryMachine.Log.Notice

/-!
# Template files

Loading a file means to decide, from what the system says about a path, whether
its text can be compiled: it must be a regular file of bounded size, in UTF-8,
with a bounded number of lines.
-/

namespace QueryMachine

/-- Why a template file cannot be loaded. -/
inductive FileError where
  | notFound (path : String)
  | tooLarge (size limit : Nat)
  | permissionDenied (path : String)
  | invalidEncoding (path : String)
  | unreadable (path message : String)
  | tooManyLines (lines limit : Nat)
  deriving DecidableEq, Repr

namespace FileError

/-- The diagnostic code of an error. -/
def code : FileError → Code
  | notFound .. => .fileNotFound
  | tooLarge .. => .fileTooLarge
  | permissionDenied .. => .permissionDenied
  | invalidEncoding .. => .invalidEncoding
  | unreadable .. => .unreadable
  | tooManyLines .. => .tooManyLines

/-- The text of an error. -/
def message : FileError → String
  | notFound path => "File not found: " ++ path
  | tooLarge size limit =>
    "File too large: " ++ toString size ++ " bytes (max: " ++ toString limit ++ ")"
  | permissionDenied path => "Permission denied: " ++ path
  | invalidEncoding path => "Invalid UTF-8 encoding in file: " ++ path
  | unreadable path message => "I/O error reading " ++ path ++ ": " ++ message
  | tooManyLines lines limit =>
    "File exceeds maximum line count: " ++ toString lines ++ " (max: " ++ toString limit ++ ")"

/-- Whether an error ends the work at once. -/
def requiresHalt (e : FileError) : Bool := e.code.requiresHalt

end FileError

/-- What the system says about a path. -/
inductive FileStatus where
  | missing
  | denied
  /-- The path cannot be looked at, for the given reason. -/
  | unreachable (message : String)
  /-- There is something else than a regular file. -/
  | special
  | regular (bytes : ByteArray)

/-- A loaded template file. -/
structure SourceFile where
  /-- The path, which is also the name in diagnostics. -/
  path : String
  source : String
  /-- Size in bytes. -/
  size : Nat
  lineCount : Nat

namespace SourceFile

/-- How many lines a text has, after the lines counted before; `pending` says
whether characters stand after the last newline. -/
def countLinesFrom (count : Nat) (pending : Bool) : List Char → Nat
  | [] => if pending then count + 1 else count
  | c :: cs => if c = '\n' then countLinesFrom (count + 1) false cs else countLinesFrom count true cs

/-- How many lines a text has; a newline ends a line, and the text after the
last one is a line if it is not empty. -/
def countLines (cs : List Char) : Nat := countLinesFrom 0 false cs

/-- Loads the text of a regular file. -/
def ofBytes (path : String) (bytes : ByteArray) : Except FileError SourceFile :=
  if bytes.size > Limits.maxFileSize then .error (.tooLarge bytes.size Limits.maxFileSize)
  else
    match String.fromUTF8? bytes with
    | none => .error (.invalidEncoding path)
    | some source =>
      let lineCount := countLines source.toList
      if lineCount > Limits.maxLineCount then
        .error (.tooManyLines lineCount Limits.maxLineCount)
      else .ok { path, source, size := bytes.size, lineCount }

/-- Loads what the system found at a path. -/
def ofStatus (path : String) : FileStatus → Except FileError SourceFile
  | .missing => .error (.notFound path)
  | .denied => .error (.permissionDenied path)
  | .unreachable message => .error (.unreadable path message)
  | .special => .error (.unreadable path "not a regular file")
  | .regular bytes => ofBytes path bytes

/-- Loads what the system found at a path, with the notices that come up;
`announce` asks for one when it succeeds. -/
def load (path : String) (status : FileStatus) (announce : Bool) :
    Except FileError SourceFile × Array Notice :=
  let result := ofStatus path status
  let outcome : Array Notice :=
    match result with
    | .ok file => if announce then #[.loaded path file.size file.lineCount] else #[]
    | .error error => #[.loadFailed error.code error.message path]
  (result, #[.loading path] ++ outcome)

end SourceFile

end QueryMachine
