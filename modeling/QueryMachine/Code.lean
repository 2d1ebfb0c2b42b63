/-!
# Diagnostic codes

What the compiler reports is known by a short code that stays the same when the
wording changes. For failures and warnings a table says which stage they belong
to, how bad they are, whether the work can go on and what helps against them; a
code that is not in the table is taken for a harmless one.
-/

namespace QueryMachine

/-- A diagnostic code such as `E060`. -/
structure Code where
  text : String
  deriving DecidableEq, Repr, Inhabited

/-- How bad a diagnostic is. -/
inductive Severity where
  | critical
  | high
  | medium
  | low
  deriving DecidableEq, Repr

/-- The name of a severity. -/
def Severity.name : Severity → String
  | critical => "Critical"
  | high => "High"
  | medium => "Medium"
  | low => "Low"

namespace Code

/-! The compiler itself. -/

def internalError : Code := ⟨"ERR001"⟩
def startFailure : Code := ⟨"ERR002"⟩

/-! Reading template files. -/

def fileNotFound : Code := ⟨"E005"⟩
def fileTooLarge : Code := ⟨"E007"⟩
def permissionDenied : Code := ⟨"E009"⟩
def invalidEncoding : Code := ⟨"E010"⟩
def unreadable : Code := ⟨"E011"⟩
def tooManyLines : Code := ⟨"E012"⟩

/-! Lexing. -/

def unexpectedCharacter : Code := ⟨"E020"⟩
def unterminatedString : Code := ⟨"E021"⟩
def invalidNumber : Code := ⟨"E022"⟩
def nameTooLong : Code := ⟨"E023"⟩
def stringTooLarge : Code := ⟨"E024"⟩
def unterminatedTag : Code := ⟨"E025"⟩
def unterminatedComment : Code := ⟨"E026"⟩
def tooManyTokens : Code := ⟨"E027"⟩

/-! Parsing. -/

def unexpectedToken : Code := ⟨"E040"⟩
def unexpectedEnd : Code := ⟨"E041"⟩
def unknownTag : Code := ⟨"E042"⟩
def nestingTooDeep : Code := ⟨"E043"⟩

/-! Region boundaries. -/

def nestedRegion : Code := ⟨"E060"⟩
def unmatchedClose : Code := ⟨"E061"⟩
def unclosedRegion : Code := ⟨"E062"⟩
def malformedBoundary : Code := ⟨"E063"⟩

/-! Dialects. -/

def unknownDialect : Code := ⟨"E100"⟩
def duplicateLabel : Code := ⟨"E101"⟩
def shadowedOperation : Code := ⟨"E102"⟩
def duplicateDialect : Code := ⟨"E103"⟩
def invalidArgument : Code := ⟨"E104"⟩
def stepBudgetOutOfRange : Code := ⟨"E105"⟩
def tooManyLabels : Code := ⟨"E106"⟩

/-! Evaluation. -/

def unknownFunction : Code := ⟨"E120"⟩
def argumentCount : Code := ⟨"E121"⟩
def undefinedVariable : Code := ⟨"E122"⟩
def deferredArgument : Code := ⟨"E123"⟩

/-! Deferred jumps. -/

def undefinedLabel : Code := ⟨"E140"⟩
def labelFallback : Code := ⟨"W140"⟩

/-! Successes. -/

def ready : Code := ⟨"I001"⟩
def fileLoaded : Code := ⟨"I006"⟩
def tokenized : Code := ⟨"I020"⟩
def parsed : Code := ⟨"I040"⟩
def instrumented : Code := ⟨"I060"⟩
def regionCompiled : Code := ⟨"I070"⟩
def compiled : Code := ⟨"I080"⟩

/-- What is known about a code. -/
structure Metadata where
  code : Code
  category : String
  severity : Severity
  recoverable : Bool
  requiresHalt : Bool
  description : String
  action : String
  deriving DecidableEq, Repr

/-- A row for a failure that ends the compilation. -/
def fatal (code : Code) (category : String) (severity : Severity)
    (description action : String) : Metadata :=
  ⟨code, category, severity, false, true, description, action⟩

/-- What is known about every failure and warning code. -/
def table : List Metadata :=
  [fatal internalError "System" .critical
      "Critical internal compiler error"
      "File a bug report with the template that triggered it",
   fatal startFailure "System" .critical
      "Compiler initialization failure"
      "Check build configuration and environment variables",
   fatal fileNotFound "FileProcessing" .medium
      "Template file not found"
      "Check the template path",
   fatal fileTooLarge "FileProcessing" .high
      "Template file exceeds the maximum size"
      "Split the template or raise max_file_size in the build profile",
   fatal permissionDenied "FileProcessing" .medium
      "Permission denied reading template"
      "Check file permissions",
   fatal invalidEncoding "FileProcessing" .medium
      "Template is not valid UTF-8"
      "Re-encode the template as UTF-8",
   fatal unreadable "FileProcessing" .medium
      "I/O error reading template"
      "Retry or check the underlying storage",
   fatal tooManyLines "FileProcessing" .high
      "Template exceeds the maximum line count"
      "Split the template or raise max_line_count in the build profile",
   fatal unexpectedCharacter "Lexical" .high
      "Unexpected character inside a template tag"
      "Remove the character or quote it inside a string literal",
   fatal unterminatedString "Lexical" .high
      "Unterminated string literal"
      "Close the string with a matching quote",
   fatal invalidNumber "Lexical" .high
      "Integer literal out of range"
      "Use a value that fits in a signed 64-bit integer",
   fatal nameTooLong "Lexical" .medium
      "Identifier exceeds the maximum length"
      "Shorten the identifier",
   fatal stringTooLarge "Lexical" .medium
      "String literal exceeds the maximum size"
      "Shorten the string literal",
   fatal unterminatedTag "Lexical" .high
      "Template tag is never closed"
      "Close the tag with '\x7d\x7d' or '%\x7d'",
   fatal unterminatedComment "Lexical" .high
      "Template comment is never closed"
      "Close the comment with '#\x7d'",
   fatal tooManyTokens "Lexical" .high
      "Template produces too many tokens"
      "Split the template into smaller files",
   fatal unexpectedToken "Syntax" .high
      "Unexpected token in template"
      "Check the tag or expression near the reported position",
   fatal unexpectedEnd "Syntax" .high
      "Template ended inside a tag or expression"
      "Complete the tag or expression",
   fatal unknownTag "Syntax" .high
      "Unknown block tag"
      "Use one of: sqlvm, endsqlvm, set",
   fatal nestingTooDeep "Syntax" .high
      "Template nesting exceeds the maximum depth"
      "Flatten nested expressions",
   fatal nestedRegion "Region" .high
      "Region opened inside another region"
      "Close the outer region before opening a new one",
   fatal unmatchedClose "Region" .high
      "Region closed without being opened"
      "Remove the stray endsqlvm tag or add the matching sqlvm tag",
   fatal unclosedRegion "Region" .high
      "Region opened but never closed"
      "Add a matching endsqlvm tag",
   fatal malformedBoundary "Region" .high
      "Malformed region boundary tag"
      "Write the opening tag exactly as \x7b% sqlvm %\x7d",
   fatal unknownDialect "Dialect" .critical
      "Unknown target dialect"
      "Pick one of the registered dialects",
   fatal duplicateLabel "Dialect" .high
      "Label defined more than once in a region"
      "Rename one of the labels",
   fatal shadowedOperation "Dialect" .critical
      "Dialect extension shadows a core operation"
      "Rename the extension",
   fatal duplicateDialect "Dialect" .critical
      "Dialect registered twice"
      "Register each dialect name once",
   fatal invalidArgument "Dialect" .high
      "Invalid argument to a dialect operation"
      "Check the operation's argument types",
   fatal stepBudgetOutOfRange "Dialect" .high
      "Step budget exponent out of range"
      "Use a step exponent within the configured maximum",
   fatal tooManyLabels "Dialect" .high
      "Region defines too many labels"
      "Split the program or raise max_labels_per_region",
   fatal unknownFunction "Evaluation" .high
      "Call to an unknown function"
      "Check the dialect's operation names",
   fatal argumentCount "Evaluation" .high
      "Wrong number of arguments"
      "Check the operation's arity",
   fatal undefinedVariable "Evaluation" .high
      "Reference to an undefined variable"
      "Define the variable with \x7b% set %\x7d before use",
   fatal deferredArgument "Evaluation" .high
      "Deferred value passed as an argument"
      "Emit jump/exit results directly instead of passing them to another call",
   fatal undefinedLabel "Resolution" .high
      "Jump to an undefined label"
      "Define the label or disable strict label checking",
   ⟨labelFallback, "Resolution", .low, true, false,
      "Jump to an undefined label fell back to the literal label name",
      "Define the label; the generated program will not jump where intended"⟩]

/-- What is known about a code, if it stands in the table. -/
def metadata? (code : Code) : Option Metadata :=
  table.find? fun row => row.code == code

/-- The severity of a code; medium outside the table. -/
def severity (code : Code) : Severity :=
  (code.metadata?.map Metadata.severity).getD .medium

/-- Whether work can go on after a code; so it can outside the table. -/
def recoverable (code : Code) : Bool :=
  (code.metadata?.map Metadata.recoverable).getD true

/-- Whether a code ends the work at once. -/
def requiresHalt (code : Code) : Bool :=
  (code.metadata?.map Metadata.requiresHalt).getD false

/-- What a code means. -/
def description (code : Code) : String :=
  (code.metadata?.map Metadata.description).getD "Unknown error"

/-- What to do about a code. -/
def action (code : Code) : String :=
  (code.metadata?.map Metadata.action).getD "No specific action available"

/-- The stage a code belongs to. -/
def category (code : Code) : String :=
  (code.metadata?.map Metadata.category).getD "Unknown"

end Code

end QueryMachine
