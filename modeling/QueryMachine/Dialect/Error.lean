import QueryMachine.Code
import QueryMachine.Limits

/-!
# Dialect errors

What goes wrong in an operation of a dialect or in the choice of a dialect.
Such an error has no place of its own; whoever calls the operation adds it.
-/

namespace QueryMachine

/-- A failure of a dialect. -/
inductive DialectError where
  | unknownDialect (name : String) (available : List String)
  | duplicateLabel (name : String) (address : Int)
  | shadowedOperation (dialect name : String)
  | duplicateDialect (name : String)
  | invalidArgument (operation message : String)
  | negativeAllocation (count : Int)
  | stepBudgetOutOfRange (requested : Int)
  | tooManyLabels
  deriving DecidableEq, Repr

namespace DialectError

/-- The diagnostic code of an error. -/
def code : DialectError → Code
  | unknownDialect .. => .unknownDialect
  | duplicateLabel .. => .duplicateLabel
  | shadowedOperation .. => .shadowedOperation
  | duplicateDialect .. => .duplicateDialect
  | invalidArgument .. | negativeAllocation .. => .invalidArgument
  | stepBudgetOutOfRange .. => .stepBudgetOutOfRange
  | tooManyLabels => .tooManyLabels

/-- The text of an error. -/
def message : DialectError → String
  | unknownDialect name available =>
    "Unknown dialect '" ++ name ++ "' (available: " ++ ", ".intercalate available ++ ")"
  | duplicateLabel name address =>
    "Duplicate label '" ++ name ++ "' (first defined at program counter " ++
      toString address ++ ")"
  | shadowedOperation dialect name =>
    "Dialect '" ++ dialect ++ "' extension '" ++ name ++ "' shadows a core operation"
  | duplicateDialect name => "Dialect '" ++ name ++ "' is already registered"
  | invalidArgument operation message =>
    "Invalid argument to " ++ operation ++ ": " ++ message
  | negativeAllocation count =>
    "Cannot allocate a negative number of cells (" ++ toString count ++ ")"
  | stepBudgetOutOfRange requested =>
    "Step budget exponent " ++ toString requested ++ " out of range (0..=" ++
      toString Limits.maxStepBits ++ ")"
  | tooManyLabels =>
    "Too many labels in one region (max " ++ toString Limits.maxLabels ++ ")"

end DialectError

end QueryMachine
