/-!
# Positions and spans

Whatever is made from a template remembers the span of text it was made from,
and an error of any stage reports that span. A position is counted three ways at
once: in bytes from the start, in lines, and in characters within the line.

Lines and columns are numbers without a bound here. Kept in words of 32 bits they
are the same for a text of fewer than `2 ^ 32 - 1` bytes, where none of them leaves
the range of a word (`Position.InText.fits`), and no larger file is ever loaded
(`SourceFile.position_fits`).
-/

namespace QueryMachine

/-- A place between two characters of a text. -/
structure Position where
  /-- Bytes before this place. -/
  offset : Nat
  /-- Line number, from 1. -/
  line : Nat
  /-- Column number, from 1, in characters. -/
  column : Nat
  deriving DecidableEq, Repr, Inhabited

namespace Position

/-- The start of a text. -/
def start : Position := ⟨0, 1, 1⟩

/-- The place after one more character. -/
def advance (p : Position) (c : Char) : Position :=
  if c = '\n' then ⟨p.offset + 1, p.line + 1, 1⟩
  else ⟨p.offset + c.utf8Size, p.line, p.column + 1⟩

/-- The place after a text that begins here. -/
def advanceOver (p : Position) (cs : List Char) : Position :=
  cs.foldl advance p

@[simp] theorem advanceOver_nil (p : Position) : p.advanceOver [] = p := rfl

@[simp] theorem advanceOver_cons (p : Position) (c : Char) (cs : List Char) :
    p.advanceOver (c :: cs) = (p.advance c).advanceOver cs := rfl

theorem advanceOver_append (p : Position) (as bs : List Char) :
    p.advanceOver (as ++ bs) = (p.advanceOver as).advanceOver bs := by
  simp [advanceOver]

/-- Positions are ordered by offset, then line, then column. -/
def isBefore (p q : Position) : Bool :=
  p.offset < q.offset ||
    (p.offset == q.offset &&
      (p.line < q.line || (p.line == q.line && p.column < q.column)))

/-- A position as `line:column`. -/
def text (p : Position) : String :=
  toString p.line ++ ":" ++ toString p.column

end Position

/-- The text between two positions. -/
structure Span where
  start : Position
  stop : Position
  deriving DecidableEq, Repr, Inhabited

namespace Span

/-- The empty span at a position, where tokens are inserted. -/
def point (p : Position) : Span := ⟨p, p⟩

/-- The span of a value that stands nowhere in a text. -/
def nowhere : Span := point Position.start

/-- The least span around two spans. The first one's ends win when offsets
agree. -/
def cover (a b : Span) : Span where
  start := if a.start.offset ≤ b.start.offset then a.start else b.start
  stop := if a.stop.offset ≥ b.stop.offset then a.stop else b.stop

/-- A span as `line:column-column` on one line, else `line:column-line:column`. -/
def text (s : Span) : String :=
  if s.start.line = s.stop.line then s.start.text ++ "-" ++ toString s.stop.column
  else s.start.text ++ "-" ++ s.stop.text

end Span

/-- A value and where it stands. -/
structure Located (α : Type) where
  value : α
  span : Span
  deriving DecidableEq, Repr

end QueryMachine
