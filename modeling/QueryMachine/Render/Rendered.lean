import QueryMachine.Position
import QueryMachine.Value

/-!
# Rendered text with placeholders

What rendering produces before its placeholders are resolved: text and thunks
in order. Adjacent texts are one text and empty texts are not kept, because the
text after the last thunk is held apart until the next thunk closes it.
-/

namespace QueryMachine

/-- A piece of rendered output. -/
inductive Segment where
  | text (text : String)
  /-- A placeholder and the expression that produced it. -/
  | thunk (thunk : Thunk) (span : Span)
  deriving DecidableEq, Repr

namespace Segment

/-- Whether a segment is a placeholder. -/
def isThunk : Segment → Bool
  | text _ => false
  | thunk .. => true

/-- A segment with its placeholder shown as a marker. -/
def shown : Segment → String
  | text s => s
  | thunk t _ => t.marker

end Segment

/-- Rendered text with its placeholders. -/
structure Rendered where
  /-- Everything up to the last placeholder. -/
  closed : Array Segment := #[]
  /-- The text after it. -/
  tail : String := ""
  deriving Repr

namespace Rendered

/-- A text as segments: none if it is empty. -/
def textSegments (s : String) : Array Segment :=
  if s.isEmpty then #[] else #[.text s]

/-- Adds text. -/
def pushText (r : Rendered) (s : String) : Rendered :=
  { r with tail := r.tail ++ s }

/-- Adds a placeholder. -/
def pushThunk (r : Rendered) (t : Thunk) (span : Span) : Rendered :=
  ⟨(r.closed ++ textSegments r.tail).push (.thunk t span), ""⟩

/-- The segments in order. -/
def segments (r : Rendered) : Array Segment :=
  r.closed ++ textSegments r.tail

/-- How many placeholders there are. -/
def thunkCount (r : Rendered) : Nat :=
  r.segments.countP Segment.isThunk

/-- Whether nothing was rendered. -/
def isEmpty (r : Rendered) : Bool := r.segments.isEmpty

/-- The text with its placeholders shown as markers. -/
def intermediateText (r : Rendered) : String :=
  r.segments.foldl (fun text segment => text ++ segment.shown) ""

end Rendered

end QueryMachine
