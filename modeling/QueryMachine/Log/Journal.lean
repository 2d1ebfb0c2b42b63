import QueryMachine.Log.Buffer
import QueryMachine.Log.Notice

/-!
# Journals

A journal is a log together with the name of the template that is being worked
on. Every event that is written while there is such a name carries it, unless
the user does not want to see it.
-/

namespace QueryMachine.Log

/-- A log and the template whose work it records. -/
structure Journal where
  minimum : Level
  /-- Whether events name the template. -/
  showTemplate : Bool := true
  template : Option String := none
  buffer : Buffer := {}

namespace Journal

/-- Names the template that is being worked on. -/
def enter (j : Journal) (name : String) : Journal := { j with template := some name }

/-- No template is being worked on. -/
def leave (j : Journal) : Journal := { j with template := none }

/-- Does some work under a template's name; afterwards the name is what it was
before, whatever the work did to it. -/
def within {α : Type} (name : String) (work : StateM Journal α) : StateM Journal α := fun j =>
  let (result, done) := work (j.enter name)
  (result, { done with template := j.template })

/-- Writes an event. -/
def write (j : Journal) (e : Event) : Journal :=
  { j with buffer := j.buffer.log j.minimum (e.inTemplate j.showTemplate j.template) }

/-- Writes the event of a record, under the name the record carries. -/
def keep (clock : Clock) (j : Journal) (r : Record) : Journal :=
  { j with buffer := j.buffer.log j.minimum (r.event j.showTemplate clock) }

/-- The events kept, in order. -/
def events (j : Journal) : List Event := j.buffer.toList

end Journal

end QueryMachine.Log
