import QueryMachine.Code
import QueryMachine.Limits
import QueryMachine.Position

/-!
# Lexical errors

The ways in which a text fails to be a sequence of tokens. Each one knows the
span it is about.
-/

namespace QueryMachine

/-- Why a template cannot be cut into tokens. -/
inductive LexError where
  | unexpectedCharacter (character : Char) (span : Span)
  | unterminatedString (span : Span)
  /-- The span is that of the tag's opener. -/
  | unterminatedTag (span : Span)
  /-- The span is that of the comment's opener. -/
  | unterminatedComment (span : Span)
  | invalidNumber (text : String) (span : Span)
  | nameTooLong (length : Nat) (span : Span)
  | stringTooLarge (size : Nat) (span : Span)
  /-- The span is that of the first token too many. -/
  | tooManyTokens (count : Nat) (span : Span)
  deriving DecidableEq, Repr

namespace LexError

/-- The diagnostic code of an error. -/
def code : LexError → Code
  | unexpectedCharacter .. => .unexpectedCharacter
  | unterminatedString .. => .unterminatedString
  | unterminatedTag .. => .unterminatedTag
  | unterminatedComment .. => .unterminatedComment
  | invalidNumber .. => .invalidNumber
  | nameTooLong .. => .nameTooLong
  | stringTooLarge .. => .stringTooLarge
  | tooManyTokens .. => .tooManyTokens

/-- What an error is about. -/
def span : LexError → Span
  | unexpectedCharacter _ span | unterminatedString span | unterminatedTag span
  | unterminatedComment span | invalidNumber _ span | nameTooLong _ span
  | stringTooLarge _ span | tooManyTokens _ span => span

/-- The text of an error. -/
def message : LexError → String
  | unexpectedCharacter c span =>
    "Unexpected character '" ++ c.toString ++ "' inside tag at " ++ span.start.text
  | unterminatedString span =>
    "Unterminated string literal starting at " ++ span.start.text
  | unterminatedTag span => "Tag opened at " ++ span.start.text ++ " is never closed"
  | unterminatedComment span =>
    "Comment opened at " ++ span.start.text ++ " is never closed"
  | invalidNumber text _ => "Invalid integer literal '" ++ text ++ "'"
  | nameTooLong length _ =>
    "Identifier too long: " ++ toString length ++ " characters (max " ++
      toString Limits.maxNameLength ++ ")"
  | stringTooLarge size _ =>
    "String too large: " ++ toString size ++ " bytes (max " ++
      toString Limits.maxStringSize ++ ")"
  | tooManyTokens count _ =>
    "Too many tokens: " ++ toString count ++ " (max " ++
      toString Limits.maxTokenCount ++ ")"

end LexError

end QueryMachine
