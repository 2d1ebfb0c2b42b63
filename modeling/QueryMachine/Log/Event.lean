import Std.Data.TreeMap
import QueryMachine.Code
import QueryMachine.Log.Level
import QueryMachine.Position
import QueryMachine.Text.Json

/-!
# Log events

An event has a level, a code, a message, perhaps a span, and a context of named
values in the order of their names. It is written as one line of text or as one
line of JSON.
-/

namespace QueryMachine

/-- Something that is worth logging. -/
structure Event where
  level : Level
  code : Code
  message : String
  span : Option Span := none
  context : Std.TreeMap String String := ∅
  /-- Seconds since the epoch. -/
  timestamp : Nat := 0

namespace Event

/-- A failure. -/
def error (code : Code) (message : String) : Event :=
  { level := .error, code, message }

/-- A warning with a code of its own. -/
def codedWarning (code : Code) (message : String) : Event :=
  { level := .warning, code, message }

/-- A warning without a code of its own. -/
def warning (message : String) : Event := codedWarning ⟨"W000"⟩ message

/-- A success. -/
def success (code : Code) (message : String) : Event :=
  { level := .info, code, message }

/-- Something to know. -/
def info (message : String) : Event := success ⟨"I000"⟩ message

/-- A detail for whoever looks for a fault. -/
def debug (message : String) : Event :=
  { level := .debug, code := ⟨"D000"⟩, message }

/-- Says where an event happened. -/
def located (e : Event) (span : Span) : Event := { e with span := some span }

/-- Adds a value to the context; an earlier one of the same name is replaced. -/
def put (e : Event) (key value : String) : Event :=
  { e with context := e.context.insert key value }

/-- Adds values to the context in order. -/
def putAll (e : Event) (entries : List (String × String)) : Event :=
  entries.foldl (fun e entry => e.put entry.1 entry.2) e

/-- Names the template an event belongs to, in place of any other value of that
key, if there is one and it is to be shown. -/
def inTemplate (e : Event) (shown : Bool) (template : Option String) : Event :=
  match shown, template with
  | true, some name => e.put "template" name
  | _, _ => e

/-- An event as a line of text. -/
def format (e : Event) : String :=
  let place := (e.span.map fun span => " at " ++ span.start.text).getD ""
  let context :=
    if e.context.isEmpty then ""
    else " (" ++ ", ".intercalate (e.context.toList.map fun (k, v) => k ++ "=" ++ v) ++ ")"
  "[" ++ e.level.tag ++ "] " ++ e.code.text ++ " - " ++ e.message ++ place ++ context

/-- The context of an event as JSON fields; none if it is empty. -/
def contextFields (e : Event) : List (String × Text.Json) :=
  if e.context.isEmpty then []
  else [("context", .object (e.context.toList.map fun (k, v) => (k, .string v)))]

/-- What is known about the code of a failure, as JSON fields; none for other
events. -/
def failureFields (e : Event) : List (String × Text.Json) :=
  if e.level = .error then
    [("error_metadata", .object
      [("description", .string e.code.description),
       ("recommended_action", .string e.code.action),
       ("requires_halt", .bool e.code.requiresHalt)])]
  else []

/-- The span of an event as JSON fields; none if it has none. -/
def spanFields (e : Event) : List (String × Text.Json) :=
  match e.span with
  | some span =>
    [("span", .object
      [("end_column", .number span.stop.column),
       ("end_line", .number span.stop.line),
       ("start_column", .number span.start.column),
       ("start_line", .number span.start.line)])]
  | none => []

/-- An event as a line of JSON, its keys in alphabetical order. -/
def formatJson (e : Event) : String :=
  Text.Json.render <| .object <|
    [("category", .string e.code.category), ("code", .string e.code.text)] ++
    e.contextFields ++ e.failureFields ++
    [("level", .string e.level.tag), ("message", .string e.message),
     ("severity", .string e.code.severity.name)] ++
    e.spanFields ++ [("timestamp", .number e.timestamp)]

end Event

end QueryMachine
