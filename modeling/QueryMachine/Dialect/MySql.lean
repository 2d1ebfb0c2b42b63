import QueryMachine.Dialect
import QueryMachine.Dialect.MySql.Memory
import QueryMachine.Dialect.MySql.Steps

/-!
# The MySQL dialect

MySQL has no loop inside a query, so the generated query makes one: it selects
from a table with as many rows as the program may take steps, and every row runs
one step. A step is a `CASE` on the variable `@pc`, with one branch for each
instruction, followed by the increment of `@pc`. What a program remembers lives
in `@mem` and what it answers in `@out`; the row of the last step holds the
answer, and the outer query picks it.
-/

namespace QueryMachine.MySql

/-- The query up to its first branch. -/
def head : String :=
  "SELECT o FROM (\n" ++
  "    SELECT 0 v, '' o, 0 pc FROM (SELECT @pc:=0, @mem:='', @out:='') i UNION ALL\n" ++
  "    SELECT v,\n" ++
  "    CASE @pc"

/-- The query after its last branch. -/
def foot (stepBits : Nat) : String :=
  "0\n    ELSE @out END,\n    @pc:=@pc+1\n    FROM " ++ Steps.table stepBits ++
  ") q ORDER BY v DESC LIMIT 1"

/-- The head of the branch of an instruction. -/
def branch (counter : Int) : String :=
  "\n        WHEN " ++ toString counter ++ " THEN "

/-- An assignment to the program counter. -/
def assignCounter (target : String) : String := "@pc:=" ++ target

/-- The name of the extension that chooses the step budget. -/
def setStepsName : String := "set_lg_steps"

/-- `set_lg_steps(k)`: the program may run for `2^k` steps. -/
def setSteps (args : List Value) : Action Fragment :=
  match args with
  | [.int bits] => do
    Action.update (·.setStepBits bits)
    Action.text ""
  | [other] =>
    throw (.invalidArgument setStepsName ("expected an integer, got " ++ other.typeName))
  | _ => throw (.invalidArgument setStepsName "expected exactly one argument")

/-- The code of a placeholder. A jump to a label that is not defined goes to its
name. -/
def resolve (m : Machine) : Thunk → String
  | .jumpTo name =>
    match m.address? name with
    | some address => assignCounter (toString address)
    | none => assignCounter name
  | .exit => assignCounter (toString m.finalCounter)

/-- The dialect. A label stands in the place of an instruction, so it leaves an
instruction that does nothing. -/
def dialect : Dialect where
  name := "mysql"
  prologue := do
    Action.update fun m => .ok m.restart
    Action.text head
  epilogue := do
    Action.text (foot (← Action.machine).stepBits)
  statement := do
    Action.update fun m => .ok m.advance
    Action.text (branch (← Action.machine).counter)
  label name := do
    Action.update (·.defineLabel name)
    Action.text "0"
  jump name := pure (.thunk (.jumpTo name))
  exit := pure (.thunk .exit)
  load target source := Action.ofExcept ((Memory.load target source).map .text)
  store value target := Action.ofExcept ((Memory.store value target).map .text)
  alloc count := Action.ofExcept ((Memory.alloc count).map .text)
  nop := Action.text "0"
  resolve m thunk := .ok (resolve m thunk)
  extensions := .ofList [⟨setStepsName, 1, setSteps⟩]

end QueryMachine.MySql
