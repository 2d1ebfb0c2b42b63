import QueryMachine.Log.Event

/-!
# Logs

A log keeps the events of its level, cuts messages that are too long, and holds
a bounded number of events: the oldest one goes when there is no room.
-/

namespace QueryMachine

namespace Log

/-- The longest beginning of a text that has at most `room` bytes. `before`
holds the reversed characters passed so far. -/
def takeBytesFrom (before : List Char) (room : Nat) : List Char → List Char
  | [] => before.reverse
  | c :: cs =>
    if c.utf8Size ≤ room then takeBytesFrom (c :: before) (room - c.utf8Size) cs
    else before.reverse

/-- A message as it is logged: cut between two characters, with dots after it,
if it is too long. -/
def cut (message : String) : String :=
  if message.utf8ByteSize ≤ Limits.maxMessageLength then message
  else String.ofList (takeBytesFrom [] Limits.maxMessageLength message.toList) ++ "..."

/-- What a log set to `minimum` makes of an event. -/
def filter (minimum : Level) (e : Event) : Option Event :=
  if e.level.passes minimum then some { e with message := cut e.message } else none

/-- The most recent events: `newest` holds the later ones, the last first, and
`oldest` those before them in order. -/
structure Buffer where
  capacity : Nat := Limits.logBufferSize
  oldest : List Event := []
  newest : List Event := []
  size : Nat := 0

namespace Buffer

/-- The events of a buffer in order. -/
def toList (b : Buffer) : List Event := b.oldest ++ b.newest.reverse

/-- A buffer without its oldest event. -/
def dropOldest (b : Buffer) : Buffer :=
  match b.oldest with
  | _ :: oldest => { b with oldest, size := b.size - 1 }
  | [] => { b with oldest := b.newest.reverse.tail, newest := [], size := b.size - 1 }

/-- Adds an event; the oldest one goes if the buffer is full. -/
def push (b : Buffer) (e : Event) : Buffer :=
  let b := if b.size ≥ b.capacity then b.dropOldest else b
  { b with newest := e :: b.newest, size := b.size + 1 }

/-- Logs an event at a level. -/
def log (minimum : Level) (b : Buffer) (e : Event) : Buffer :=
  match filter minimum e with
  | some e => b.push e
  | none => b

/-- The events with a code. -/
def withCode (b : Buffer) (code : Code) : List Event :=
  b.toList.filter fun e => e.code == code

/-- Whether there is a failure with a code. -/
def hasError (b : Buffer) (code : Code) : Bool :=
  b.toList.any fun e => e.level == .error && e.code == code

/-- The warnings. -/
def warnings (b : Buffer) : List Event :=
  b.toList.filter fun e => e.level == .warning

end Buffer

end Log

end QueryMachine
