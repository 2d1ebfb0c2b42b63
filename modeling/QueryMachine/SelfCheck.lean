import QueryMachine.Compile

/-!
# Checks at the start

Before it compiles anything the program checks that its own tables fit together:
that the codes its stages use stand in the table of codes, that the limits can
be met, and that the dialects of the build can be registered.
-/

namespace QueryMachine.SelfCheck

/-- Checks that codes stand in the table; `complaint` words what is said about
the first that does not. -/
def requireCodes (codes : List Code) (complaint : Code → String) : Except String Unit :=
  match codes.find? fun code => code.metadata?.isNone with
  | some code => .error (complaint code)
  | none => .ok ()

/-- Checks what the lexer relies on. -/
def lexer : Except String Unit := do
  requireCodes
    [.unexpectedCharacter, .unterminatedString, .invalidNumber, .nameTooLong,
     .stringTooLarge, .unterminatedTag, .unterminatedComment, .tooManyTokens]
    fun code => "Lexical error code " ++ code.text ++ " not found in metadata registry"
  if Limits.maxTokenCount < 2 then
    throw "max_token_count must allow at least one token plus end of input"

/-- The notices of a successful check of the lexer. -/
def lexerNotices : Array Notice := #[.lexicalLimits]

/-- Checks what the instrumentation relies on. -/
def regions : Except String Unit :=
  requireCodes [.nestedRegion, .unmatchedClose, .unclosedRegion, .malformedBoundary]
    fun code => "Region error code " ++ code.text ++ " has no metadata"

/-- Checks what the parser relies on. -/
def parser : Except String Unit :=
  requireCodes [.unexpectedToken, .unexpectedEnd, .unknownTag, .nestingTooDeep]
    fun code => "Syntax error code " ++ code.text ++ " has no metadata"

/-- Checks what the log relies on. -/
def logging : Except String Unit := do
  if Limits.logBufferSize = 0 then
    throw "log_buffer_size must be greater than zero"
  if Limits.maxMessageLength < 16 then
    throw ("max_log_message_length " ++ toString Limits.maxMessageLength ++ " is too small")

/-- Checks that the log can start. -/
def start : Except String Unit := do
  logging.mapError ("Configuration validation failed: " ++ ·)
  match [Code.internalError, .nestedRegion, .unknownDialect, .undefinedLabel].find?
      fun code => code.description == "Unknown error" with
  | some code => throw ("Missing metadata for error code: " ++ code.text)
  | none => return ()

/-- Checks every stage; gives the registry of the build. -/
def stages : Except String Registry := do
  lexer
  regions
  parser
  requireCodes
    [.unknownDialect, .duplicateLabel, .unknownFunction, .deferredArgument,
     .undefinedLabel, .labelFallback, .fileTooLarge]
    fun code => "Error code " ++ code.text ++ " has no metadata"
  Registry.builtin.mapError fun error =>
    "Built-in dialect registration failed: " ++ error.message

/-- The notices of a successful check of every stage. -/
def stagesNotices (r : Registry) : Array Notice :=
  #[.validating] ++ lexerNotices ++ Registry.builtinNotices ++ #[.validated r.names]

end QueryMachine.SelfCheck
