import QueryMachine.Position
import QueryMachine.Text.Split

/-!
# Error reports

A listing is a template's text by lines, under the name the user knows it by.
A report shows a message, where it belongs, the line, and an underline below
the part of the line that is meant.
-/

namespace QueryMachine

/-- The text of a template under its name. -/
structure Listing where
  name : String
  source : String

namespace Listing

/-- A line without the carriage returns at its end. -/
def dropReturns (line : List Char) : List Char :=
  (line.reverse.dropWhile (· = '\r')).reverse

/-- The characters of a line, by its number from 1, without its line end. -/
def lineChars? (listing : Listing) : Nat → Option (List Char)
  | 0 => none
  | n + 1 => (Text.lines listing.source.toList)[n]?.map dropReturns

/-- A line by its number from 1, without its line end. -/
def line? (listing : Listing) (number : Nat) : Option String :=
  (listing.lineChars? number).map String.ofList

/-- `n` copies of a character. -/
def run (n : Nat) (c : Char) : String :=
  String.ofList (List.replicate n c)

/-- How many carets stand below a line of `width` characters: as many as the
span has characters on one line, else to the line's end, and at least one. -/
def caretCount (span : Span) (width : Nat) : Nat :=
  let wanted :=
    if span.start.line = span.stop.line then span.stop.column - span.start.column
    else width - (span.start.column - 1)
  max wanted 1

/-- The line of a span with its number and the underline below it. -/
def excerpt (span : Span) (line : List Char) : String :=
  let number := toString span.start.line
  let margin := run number.length ' '
  margin ++ " |\n" ++
  number ++ " | " ++ String.ofList line ++ "\n" ++
  margin ++ " | " ++ run (span.start.column - 1) ' ' ++
    run (caretCount span line.length) '^' ++ "\n"

/-- A message with the line it is about. A span outside the text has no line to
show. -/
def report (listing : Listing) (span : Span) (message : String) : String :=
  "error: " ++ message ++ "\n" ++
  "  --> " ++ listing.name ++ ":" ++ span.start.text ++ "\n" ++
  ((listing.lineChars? span.start.line).map (excerpt span)).getD ""

end Listing

end QueryMachine
