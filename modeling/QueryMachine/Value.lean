import QueryMachine.Text.Quoted

/-!
# Values and deferred values

A template computes with strings and integers. A jump and an exit are only
known when their region has been rendered to the end, because a label may stand
after the jump to it; until then their value is deferred.
-/

namespace QueryMachine

/-- A placeholder that is resolved when its region is complete. -/
inductive Thunk where
  /-- Go on at a label. -/
  | jumpTo (label : String)
  /-- Go on after the last instruction. -/
  | exit
  deriving DecidableEq, Repr

/-- How a placeholder is shown while it is unresolved. -/
def Thunk.marker : Thunk → String
  | jumpTo label => "\x7b\x7b _jump_thunk(" ++ Text.quoted label ++ ") \x7d\x7d"
  | exit => "\x7b\x7b _exit_thunk() \x7d\x7d"

/-- What an operation of a dialect produces. -/
inductive Fragment where
  | text (text : String)
  | thunk (thunk : Thunk)
  deriving DecidableEq, Repr

/-- A value of a template. -/
inductive Value where
  | str (text : String)
  | int (value : Int)
  | deferred (thunk : Thunk)
  deriving DecidableEq, Repr

namespace Value

/-- The value of a fragment. -/
def ofFragment : Fragment → Value
  | .text text => str text
  | .thunk thunk => deferred thunk

/-- How messages call the type of a value. -/
def typeName : Value → String
  | str _ => "string"
  | int _ => "integer"
  | deferred _ => "deferred value"

/-- The text of a string value. -/
def str? : Value → Option String
  | str text => some text
  | _ => none

/-- The text a value puts into generated code; a deferred value has none yet. -/
def code? : Value → Option String
  | str text => some text
  | int value => some (toString value)
  | deferred _ => none

end Value

end QueryMachine
