/-!
# Core operations

The operations that every dialect implements, under the names by which a
template calls them.
-/

namespace QueryMachine

/-- An operation of every dialect. -/
inductive Operation where
  | prologue
  | epilogue
  | statement
  | label
  | jump
  | exit
  | load
  | store
  | alloc
  | nop
  deriving DecidableEq, Repr

namespace Operation

/-- Every operation. -/
def all : List Operation :=
  [prologue, epilogue, statement, label, jump, exit, load, store, alloc, nop]

/-- The name by which templates call an operation. -/
def name : Operation → String
  | prologue => "prologue"
  | epilogue => "epilogue"
  | statement => "statement"
  | label => "label"
  | jump => "jump"
  | exit => "exit"
  | load => "load"
  | store => "store"
  | alloc => "alloc"
  | nop => "nop"

/-- The operation of a name. -/
def ofName? (name : String) : Option Operation :=
  all.find? fun op => op.name == name

/-- How many arguments an operation takes. -/
def arity : Operation → Nat
  | prologue | epilogue | statement | exit | nop => 0
  | label | jump | alloc => 1
  | load | store => 2

theorem ofName?_name (op : Operation) : ofName? op.name = some op := by
  cases op <;> decide

end Operation

end QueryMachine
