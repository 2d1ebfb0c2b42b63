import QueryMachine.Code
import QueryMachine.Token.Cursor

/-!
# Parse errors

The ways in which a sequence of tokens fails to be a template.
-/

namespace QueryMachine

/-- Why tokens do not form a template. -/
inductive ParseError where
  | unexpectedToken (expected found : String) (span : Span)
  | unexpectedEnd (expected : String) (span : Span)
  | unknownTag (name : String) (span : Span)
  | nestedRegion (span : Span)
  | unmatchedClose (span : Span)
  | unclosedRegion (span : Span)
  | nestingTooDeep (span : Span)
  deriving DecidableEq, Repr

namespace ParseError

/-- A wanted token that the cursor did not find. -/
def ofCursor : CursorError → ParseError
  | .unexpectedToken expected found span => unexpectedToken expected found span
  | .unexpectedEnd expected span => unexpectedEnd expected span

/-- The diagnostic code of an error. -/
def code : ParseError → Code
  | unexpectedToken .. => .unexpectedToken
  | unexpectedEnd .. => .unexpectedEnd
  | unknownTag .. => .unknownTag
  | nestedRegion .. => .nestedRegion
  | unmatchedClose .. => .unmatchedClose
  | unclosedRegion .. => .unclosedRegion
  | nestingTooDeep .. => .nestingTooDeep

/-- What an error is about. -/
def span : ParseError → Span
  | unexpectedToken _ _ span | unexpectedEnd _ span | unknownTag _ span
  | nestedRegion span | unmatchedClose span | unclosedRegion span
  | nestingTooDeep span => span

/-- The text of an error. -/
def message : ParseError → String
  | unexpectedToken expected found span =>
    "Unexpected token: expected " ++ expected ++ ", found " ++ found ++ " at " ++ span.text
  | unexpectedEnd expected _ => "Unexpected end of input: expected " ++ expected
  | unknownTag name span => "Unknown tag '" ++ name ++ "' at " ++ span.text
  | nestedRegion span => "Unexpected nested sqlvm block at " ++ span.text
  | unmatchedClose span => "Unexpected endsqlvm block at " ++ span.text
  | unclosedRegion span => "sqlvm block opened at " ++ span.text ++ " is never closed"
  | nestingTooDeep span => "Maximum nesting depth exceeded at " ++ span.text

end ParseError

end QueryMachine
