import QueryMachine.Render.Error
import QueryMachine.SourceFile
import QueryMachine.Template.Error

/-!
# Compilation errors

The error of a compilation is the error of the stage that failed. Its kind is
coarser: failures of the same nature are of one kind, whichever stage met them.
-/

namespace QueryMachine

/-- The nature of a compilation failure. -/
inductive ErrorKind where
  | nestedRegion
  | unmatchedClose
  | unclosedRegion
  | malformedBoundary
  | duplicateLabel
  | undefinedLabel
  | unknownDialect
  | lexical
  | grammar
  | evaluation
  | fileProcessing
  deriving DecidableEq, Repr

/-- The name of a kind, as tools know it. -/
def ErrorKind.name : ErrorKind → String
  | nestedRegion => "NestedRegion"
  | unmatchedClose => "UnmatchedClose"
  | unclosedRegion => "UnclosedRegion"
  | malformedBoundary => "MalformedBoundary"
  | duplicateLabel => "DuplicateLabel"
  | undefinedLabel => "UndefinedLabel"
  | unknownDialect => "UnknownDialect"
  | lexical => "Lexical"
  | grammar => "Syntax"
  | evaluation => "Evaluation"
  | fileProcessing => "FileProcessing"

/-- The failure of a stage of the compilation. -/
inductive CompileError where
  | file (error : FileError)
  | lexical (error : LexError)
  | region (error : RegionError)
  | parse (error : ParseError)
  | dialect (error : DialectError)
  | render (error : RenderError)
  | resolve (error : ResolveError)
  deriving DecidableEq, Repr

/-- The kind of a dialect's failure. -/
def DialectError.kind : DialectError → ErrorKind
  | unknownDialect .. => .unknownDialect
  | duplicateLabel .. => .duplicateLabel
  | _ => .evaluation

/-- The kind of a failure to resolve. -/
def ResolveError.kind : ResolveError → ErrorKind
  | undefinedLabel .. => .undefinedLabel
  | dialect error _ => error.kind

/-- The kind of a failure at a region boundary. -/
def RegionError.kind : RegionError → ErrorKind
  | nested .. => .nestedRegion
  | unmatchedClose .. => .unmatchedClose
  | unclosed .. => .unclosedRegion
  | malformed .. => .malformedBoundary

/-- The kind of a failure to parse. -/
def ParseError.kind : ParseError → ErrorKind
  | nestedRegion .. => .nestedRegion
  | unmatchedClose .. => .unmatchedClose
  | unclosedRegion .. => .unclosedRegion
  | _ => .grammar

/-- The kind of a failure to render. -/
def RenderError.kind : RenderError → ErrorKind
  | dialect error _ => error.kind
  | resolve error => error.kind
  | _ => .evaluation

namespace CompileError

/-- The nature of a failure. -/
def kind : CompileError → ErrorKind
  | file _ => .fileProcessing
  | lexical _ => .lexical
  | region error => error.kind
  | parse error => error.kind
  | dialect error => error.kind
  | render error => error.kind
  | resolve error => error.kind

/-- Where in the template a failure belongs; some have no place there. -/
def span? : CompileError → Option Span
  | file _ | dialect _ => none
  | lexical error => some error.span
  | region error => some error.span
  | parse error => some error.span
  | render error => some error.span
  | resolve error => some error.span

/-- The diagnostic code of a failure. -/
def code : CompileError → Code
  | file error => error.code
  | lexical error => error.code
  | region error => error.code
  | parse error => error.code
  | dialect error => error.code
  | render error => error.code
  | resolve error => error.code

/-- The text of a failure. -/
def message : CompileError → String
  | file error => "File processing failed: " ++ error.message
  | lexical error => "Lexical analysis failed: " ++ error.message
  | region error => "Region instrumentation failed: " ++ error.message
  | parse error => "Syntax analysis failed: " ++ error.message
  | dialect error => error.message
  | render error => "Rendering failed: " ++ error.message
  | resolve error => "Thunk resolution failed: " ++ error.message

/-- The text of a failure after its code. -/
def codedMessage (e : CompileError) : String :=
  "[" ++ e.code.text ++ "] " ++ e.message

end CompileError

end QueryMachine
