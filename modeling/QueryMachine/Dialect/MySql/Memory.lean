import QueryMachine.Dialect.Error
import QueryMachine.Value

/-!
# Memory

Cells are kept as XML text in `@mem`: each is an element `<m>…</m>`, and the
path `/m[n]` selects the `n`-th, from 1. Where a program gives a variable for
`n`, the path needs a `$` before its name; every other address is spliced in as
it is. Nothing here looks at the content of a cell.
-/

namespace QueryMachine.MySql.Memory

/-- The code of an argument. -/
def code (operation : String) (value : Value) : Except DialectError String :=
  match value.code? with
  | some text => .ok text
  | none => .error (.invalidArgument operation "value is not known until the region ends")

/-- The code of an address. -/
def address (operation : String) (value : Value) : Except DialectError String :=
  match value with
  | .str name => .ok (if name.toList.head? = some '@' then "$" ++ name else name)
  | other => code operation other

/-- Appends empty cells. -/
def alloc (count : Value) : Except DialectError String :=
  let cells : Except DialectError String :=
    (code "alloc" count).map fun n => "@mem:=CONCAT(@mem,REPEAT('<m></m>'," ++ n ++ "))"
  match count with
  | .int n => if n < 0 then .error (.negativeAllocation n) else cells
  | _ => cells

/-- Copies a cell into a variable. -/
def load (target source : Value) : Except DialectError String := do
  let target ← code "load" target
  let source ← address "load" source
  return target ++ ":=ExtractValue(@mem,'/m[" ++ source ++ "]')"

/-- Replaces the content of a cell. -/
def store (value target : Value) : Except DialectError String := do
  let target ← address "store" target
  let value ← code "store" value
  return "@mem:=UpdateXML(@mem,'/m[" ++ target ++ "]',CONCAT('<m>'," ++ value ++ ",'</m>'))"

end QueryMachine.MySql.Memory
