import QueryMachine.Dialect.Operation
import QueryMachine.Machine
import QueryMachine.Value

/-!
# Dialects

What is generated for an operation depends on the database. A dialect is a
record of functions, one for each core operation, that act on a machine: it can
number an instruction or bind a label, and it answers with code or with a
placeholder. All that changes is in the machine, so the record itself is plain
data. Functions beyond the core operations come as extensions by name.
-/

namespace QueryMachine

/-- An action on a machine that may fail. What a failing action did to the
machine before it failed stays done. -/
abbrev Action (α : Type) : Type := ExceptT DialectError (StateM Machine) α

namespace Action

/-- Replaces the machine by what `f` makes of it, if `f` succeeds. -/
def update (f : Machine → Except DialectError Machine) : Action Unit := fun m =>
  match f m with
  | .ok m' => (.ok (), m')
  | .error error => (.error error, m)

/-- The machine as it is. -/
def machine : Action Machine := fun m => (.ok m, m)

/-- An action that produces a text. -/
def text (s : String) : Action Fragment := pure (.text s)

/-- An action that produces what a computation without a machine gives. -/
def ofExcept (result : Except DialectError Fragment) : Action Fragment := fun m => (result, m)

end Action

/-- A function that a dialect offers besides the core operations. -/
structure Extension where
  name : String
  arity : Nat
  run : List Value → Action Fragment

/-- An extension as it is listed. -/
def Extension.shown (e : Extension) : String :=
  "Extension \x7b name: " ++ Text.quoted e.name ++ ", arity: " ++ toString e.arity ++ " \x7d"

/-- Extensions by name. -/
abbrev Extensions : Type := Std.TreeMap String Extension

namespace Extensions

/-- Adds an extension; an earlier one of the same name is replaced. -/
def add (extensions : Extensions) (e : Extension) : Extensions :=
  extensions.insert e.name e

/-- The extensions of a list, later ones replacing earlier ones. -/
def ofList (list : List Extension) : Extensions :=
  list.foldl add ∅

end Extensions

/-- A generator of code for one database. -/
structure Dialect where
  name : String
  /-- The code before the first instruction; the machine starts over. -/
  prologue : Action Fragment
  epilogue : Action Fragment
  /-- The code between two instructions. -/
  statement : Action Fragment
  label : String → Action Fragment
  jump : String → Action Fragment
  exit : Action Fragment
  load : Value → Value → Action Fragment
  store : Value → Value → Action Fragment
  alloc : Value → Action Fragment
  nop : Action Fragment
  /-- The code of a placeholder in a finished program. -/
  resolve : Machine → Thunk → Except DialectError String
  extensions : Extensions := ∅

/-- The name of a label, which must be a string. -/
def Operation.labelName (op : Operation) (value : Value) : Except DialectError String :=
  match value.str? with
  | some name => .ok name
  | none =>
    .error (.invalidArgument op.name ("label name must be a string, got " ++ value.typeName))

/-- Runs `f` on the name of a label. -/
def Operation.withLabel (op : Operation) (value : Value) (f : String → Action Fragment) :
    Action Fragment :=
  match op.labelName value with
  | .ok name => f name
  | .error error => throw error

/-- Calls an operation of a dialect. A wrong number of arguments is refused. -/
def Operation.invoke (op : Operation) (d : Dialect) (args : List Value) : Action Fragment :=
  match op, args with
  | .prologue, [] => d.prologue
  | .epilogue, [] => d.epilogue
  | .statement, [] => d.statement
  | .exit, [] => d.exit
  | .nop, [] => d.nop
  | .label, [name] => op.withLabel name d.label
  | .jump, [name] => op.withLabel name d.jump
  | .alloc, [count] => d.alloc count
  | .load, [target, source] => d.load target source
  | .store, [value, address] => d.store value address
  | op, args =>
    throw (.invalidArgument op.name
      ("expected " ++ toString op.arity ++ " argument(s), got " ++ toString args.length))

end QueryMachine
