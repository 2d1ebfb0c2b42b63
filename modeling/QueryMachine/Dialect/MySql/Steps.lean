/-!
# The steps table

A program that may take `2^k` steps needs a table of `2^k` numbered rows. It is
built from binary digits: factor table `i` offers the rows `0` and `2^i`, the
join of all factors chooses one row from each, and the sum of a choice is the
number whose binary digits were chosen. So every number below `2^k` comes up,
and none of them twice.
-/

namespace QueryMachine.MySql.Steps

/-- How many rows the table has: every factor doubles them. -/
def count : Nat → Nat
  | 0 => 1
  | bits + 1 => 2 * count bits

/-- What the factor tables contribute: factor `i` the number of rows of the
factors before it. -/
def offsets (bits : Nat) : List Nat :=
  (List.range bits).map count

/-- The name of a factor table. -/
def factorName (i : Nat) : String := "E" ++ toString i

/-- A factor table of two rows. -/
def factor (i offset : Nat) : String :=
  "(SELECT 0 v UNION ALL SELECT " ++ toString offset ++ " v) " ++ factorName i

/-- The sum over the columns of the factor tables. -/
def sum (bits : Nat) : String :=
  "+".intercalate ((List.range bits).map fun i => factorName i ++ ".v")

/-- The cross join of the factor tables. -/
def factors (bits : Nat) : String :=
  " CROSS JOIN ".intercalate
    ((List.range bits).zipWith factor (offsets bits))

/-- The table as a query. -/
def table (bits : Nat) : String :=
  if bits = 0 then "(SELECT 0 v) s"
  else "(SELECT (" ++ sum bits ++ ") v FROM " ++ factors bits ++ " ORDER BY v) s"

end QueryMachine.MySql.Steps
