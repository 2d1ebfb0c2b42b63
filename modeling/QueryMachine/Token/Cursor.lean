import QueryMachine.Token

/-!
# A cursor over tokens

The parser and the instrumenter read tokens through a cursor: the tokens not
yet read, and the span of the last token for diagnostics past the end. A cursor
made by `Cursor.ofTokens` always ends with the end marker.

A step that succeeds in reading returns a cursor with fewer tokens left. That
fact is part of the result (`Cursor.After`), which is what lets every loop over
a cursor be seen to end.
-/

namespace QueryMachine

/-- The tokens still to be read. -/
structure Cursor where
  rest : List (Located Token)
  /-- Span of the last token of the whole sequence. -/
  last : Span

/-- Why a wanted token was not read. -/
inductive CursorError where
  | unexpectedToken (expected found : String) (span : Span)
  | unexpectedEnd (expected : String) (span : Span)
  deriving DecidableEq, Repr

namespace CursorError

/-- Where the wanted token is missing. -/
def span : CursorError → Span
  | unexpectedToken _ _ span | unexpectedEnd _ span => span

/-- The text of the error. -/
def message : CursorError → String
  | unexpectedToken expected found span =>
    "Expected " ++ expected ++ ", found " ++ found ++ " at " ++ span.text
  | unexpectedEnd expected _ => "Expected " ++ expected ++ ", but reached end of input"

end CursorError

namespace Cursor

/-- A sequence that ends with the end marker: one is put behind the last token
when it is missing. -/
def closed (tokens : List (Located Token)) : List (Located Token) :=
  match tokens.getLast? with
  | some last => if last.value.isEof then tokens else tokens ++ [⟨.eof, .point last.span.stop⟩]
  | none => [⟨.eof, .nowhere⟩]

/-- A cursor on the first of some tokens. -/
def ofTokens (tokens : List (Located Token)) : Cursor :=
  let all := closed tokens
  ⟨all, (all.getLast?.map Located.span).getD .nowhere⟩

/-- How many tokens are left. -/
def remaining (c : Cursor) : Nat := c.rest.length

/-- A cursor that has moved on from `c`. -/
abbrev After (c : Cursor) : Type := { d : Cursor // d.remaining < c.remaining }

/-- The current token; none once the end marker is passed. -/
def current? (c : Cursor) : Option (Located Token) := c.rest.head?

/-- The token `n` places on. -/
def ahead? (c : Cursor) (n : Nat) : Option (Located Token) := c.rest[n]?

/-- The token after the current one. -/
def next? (c : Cursor) : Option (Located Token) := c.ahead? 1

/-- Moves past the current token; at the end nothing changes. -/
def advance (c : Cursor) : Cursor := { c with rest := c.rest.tail }

/-- Whether the current token is of the kind of `wanted`. -/
def check (c : Cursor) (wanted : Token) : Bool :=
  match c.rest with
  | token :: _ => token.value.sameKind wanted
  | [] => false

/-- Moves past the current token if it is of the kind of `wanted`. -/
def advanceIf (c : Cursor) (wanted : Token) : Option c.After :=
  match h : c.rest with
  | token :: rest =>
    if token.value.sameKind wanted then
      some ⟨{ c with rest }, by simp [remaining, h]⟩
    else none
  | [] => none

/-- Reads a token of the kind of `wanted`. -/
def expect (c : Cursor) (wanted : Token) :
    Except CursorError (Located Token × c.After) :=
  match h : c.rest with
  | token :: rest =>
    if token.value.sameKind wanted then
      .ok (token, ⟨{ c with rest }, by simp [remaining, h]⟩)
    else if token.value.isEof then
      .error (.unexpectedEnd wanted.describe token.span)
    else
      .error (.unexpectedToken wanted.describe token.value.describe token.span)
  | [] => .error (.unexpectedEnd wanted.describe c.last)

/-- Moving on twice is moving on. -/
def After.trans {c : Cursor} (d : c.After) (e : d.val.After) : c.After :=
  ⟨e.val, Nat.lt_trans e.property d.property⟩

end Cursor

end QueryMachine
