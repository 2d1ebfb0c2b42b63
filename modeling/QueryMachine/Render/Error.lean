import QueryMachine.Render.Resolve

/-!
# Evaluation errors

What goes wrong while the expressions of a template are evaluated. Every error
has the place of the expression it is about.
-/

namespace QueryMachine

/-- Why a template cannot be rendered. -/
inductive RenderError where
  | unknownFunction (name : String) (span : Span)
  | argumentCount (function : String) (expected found : Nat) (span : Span)
  | undefinedVariable (name : String) (span : Span)
  | deferredArgument (function : String) (span : Span)
  | dialect (error : DialectError) (span : Span)
  | resolve (error : ResolveError)
  deriving DecidableEq, Repr

namespace RenderError

/-- The diagnostic code of an error. -/
def code : RenderError → Code
  | unknownFunction .. => .unknownFunction
  | argumentCount .. => .argumentCount
  | undefinedVariable .. => .undefinedVariable
  | deferredArgument .. => .deferredArgument
  | dialect error _ => error.code
  | resolve error => error.code

/-- What an error is about. -/
def span : RenderError → Span
  | unknownFunction _ span | argumentCount _ _ _ span | undefinedVariable _ span
  | deferredArgument _ span | dialect _ span => span
  | resolve error => error.span

/-- The text of an error. -/
def message : RenderError → String
  | unknownFunction name span => "Unknown function '" ++ name ++ "' at " ++ span.text
  | argumentCount function expected found span =>
    function ++ "() takes " ++ toString expected ++ " argument(s), " ++ toString found ++
      " given at " ++ span.text
  | undefinedVariable name span => "Undefined variable '" ++ name ++ "' at " ++ span.text
  | deferredArgument function span =>
    "Argument to " ++ function ++ "() is not known until the region ends (at " ++
      span.text ++ ")"
  | dialect error span => error.message ++ " at " ++ span.text
  | resolve error => error.message

end RenderError

end QueryMachine
