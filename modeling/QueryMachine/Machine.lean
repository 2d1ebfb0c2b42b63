import Std.Data.TreeMap
import QueryMachine.Dialect.Error

/-!
# The state of a program under construction

The instructions of a region get numbers from 0 on as they are rendered, and a
label is the number of the instruction it stands before. Both start over with
every region. The step budget does not: it holds until it is chosen anew.
-/

namespace QueryMachine

/-- A program counter, a label table and a step budget. -/
structure Machine where
  /-- Number of the last instruction; -1 before the first. -/
  counter : Int := -1
  labels : Std.TreeMap String Int := ∅
  /-- The program may run for two to this power many steps. -/
  stepBits : Nat := Limits.defaultStepBits

namespace Machine

/-- A machine before the first instruction of a program, with the step budget
it had. -/
def restart (m : Machine) : Machine :=
  { m with counter := -1, labels := ∅ }

/-- Goes on to the next instruction. -/
def advance (m : Machine) : Machine :=
  { m with counter := m.counter + 1 }

/-- The counter that an exit stores: that of the last instruction. -/
def finalCounter (m : Machine) : Int := m.counter

/-- The instruction a label is bound to. -/
def address? (m : Machine) (name : String) : Option Int := m.labels[name]?

/-- Binds a label to the current instruction. A name is bound once, and there
is a limit on the number of names. -/
def defineLabel (m : Machine) (name : String) : Except DialectError Machine :=
  match m.address? name with
  | some address => .error (.duplicateLabel name address)
  | none =>
    if m.labels.size ≥ Limits.maxLabels then .error .tooManyLabels
    else .ok { m with labels := m.labels.insert name m.counter }

/-- Chooses the step budget. -/
def setStepBits (m : Machine) (bits : Int) : Except DialectError Machine :=
  if 0 ≤ bits ∧ bits ≤ Limits.maxStepBits then .ok { m with stepBits := bits.toNat }
  else .error (.stepBudgetOutOfRange bits)

end Machine

end QueryMachine
