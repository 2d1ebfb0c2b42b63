import QueryMachine.Text.Json
import QueryMachine.Token

/-!
# Tokens as JSON

Tools hand tokens to each other as JSON. A token without content is the name of
its kind; one with content is an object with that name as its only key.
-/

namespace QueryMachine

open Text

namespace Position

/-- A position as JSON. -/
def toJson (p : Position) : Json :=
  .object [("offset", .number p.offset), ("line", .number p.line), ("column", .number p.column)]

/-- Reads a position. -/
def ofJson? (j : Json) : Option Position := do
  let offset ← (← j.field? "offset").natural?
  let line ← (← j.field? "line").natural?
  let column ← (← j.field? "column").natural?
  return ⟨offset, line, column⟩

end Position

namespace Span

/-- A span as JSON. -/
def toJson (s : Span) : Json :=
  .object [("start", s.start.toJson), ("end", s.stop.toJson)]

/-- Reads a span. -/
def ofJson? (j : Json) : Option Span := do
  let start ← Position.ofJson? (← j.field? "start")
  let stop ← Position.ofJson? (← j.field? "end")
  return ⟨start, stop⟩

end Span

namespace Token

/-- A token as JSON. -/
def toJson : Token → Json
  | data text => .object [("Data", .string text)]
  | name text => .object [("Name", .string text)]
  | string value => .object [("StringLiteral", .string value)]
  | integer value => .object [("Integer", .number value)]
  | blockBegin => .string "BlockBegin"
  | blockEnd => .string "BlockEnd"
  | variableBegin => .string "VariableBegin"
  | variableEnd => .string "VariableEnd"
  | leftParen => .string "LParen"
  | rightParen => .string "RParen"
  | comma => .string "Comma"
  | assign => .string "Assign"
  | minus => .string "Minus"
  | eof => .string "Eof"

/-- Reads a token. -/
def ofJson? : Json → Option Token
  | .object [("Data", .string text)] => some (data text)
  | .object [("Name", .string text)] => some (name text)
  | .object [("StringLiteral", .string value)] => some (string value)
  | .object [("Integer", .number value)] => some (integer value)
  | .string "BlockBegin" => some blockBegin
  | .string "BlockEnd" => some blockEnd
  | .string "VariableBegin" => some variableBegin
  | .string "VariableEnd" => some variableEnd
  | .string "LParen" => some leftParen
  | .string "RParen" => some rightParen
  | .string "Comma" => some comma
  | .string "Assign" => some assign
  | .string "Minus" => some minus
  | .string "Eof" => some eof
  | _ => none

/-- A token and its span as JSON. -/
def locatedToJson (t : Located Token) : Json :=
  .object [("value", t.value.toJson), ("span", t.span.toJson)]

/-- Reads a token and its span. -/
def locatedOfJson? (j : Json) : Option (Located Token) := do
  let value ← ofJson? (← j.field? "value")
  let span ← Span.ofJson? (← j.field? "span")
  return ⟨value, span⟩

end Token

end QueryMachine
