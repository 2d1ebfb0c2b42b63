import QueryMachine.Code
import QueryMachine.Position

/-!
# Errors at region boundaries

A region opens with `{% sqlvm %}` and closes with `{% endsqlvm %}`; regions do
not nest. Every violation ends the compilation.
-/

namespace QueryMachine

/-- A violation of the region structure. -/
inductive RegionError where
  /-- A region opens at `span` inside the one that opened at `opened`. -/
  | nested (span opened : Span)
  | unmatchedClose (span : Span)
  /-- The span is that of the opening tag. -/
  | unclosed (span : Span)
  /-- An opening tag holds more than its name. -/
  | malformed (expected found : String) (span : Span)
  deriving DecidableEq, Repr

namespace RegionError

/-- The diagnostic code of an error. -/
def code : RegionError → Code
  | nested .. => .nestedRegion
  | unmatchedClose .. => .unmatchedClose
  | unclosed .. => .unclosedRegion
  | malformed .. => .malformedBoundary

/-- What an error is about. -/
def span : RegionError → Span
  | nested span _ | unmatchedClose span | unclosed span | malformed _ _ span => span

/-- The text of an error. -/
def message : RegionError → String
  | nested span opened =>
    "Unexpected nested sqlvm block at " ++ span.start.text ++
      " (region already open since " ++ opened.start.text ++ ")"
  | unmatchedClose span => "Unexpected endsqlvm block at " ++ span.start.text
  | unclosed span => "sqlvm block opened at " ++ span.start.text ++ " is never closed"
  | malformed expected found span =>
    "Unexpected token in sqlvm block at " ++ span.start.text ++
      " (wanted " ++ expected ++ " but got " ++ found ++ ")"

end RegionError

end QueryMachine
