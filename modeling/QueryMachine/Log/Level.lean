import QueryMachine.Limits

/-!
# Log levels

Four levels, from the most to the least severe. A log set to a level keeps the
events that are at least as severe.
-/

namespace QueryMachine

/-- How important a log event is. -/
inductive Level where
  | error
  | warning
  | info
  | debug
  deriving DecidableEq, Repr, Inhabited

namespace Level

/-- The place of a level, the most severe first. -/
def rank : Level → Nat
  | error => 0
  | warning => 1
  | info => 2
  | debug => 3

/-- The level of a rank; everything past the last one is the last one. -/
def ofRank : Nat → Level
  | 0 => error
  | 1 => warning
  | 2 => info
  | _ => debug

/-- The tag of a level in a log line. -/
def tag : Level → String
  | error => "ERROR"
  | warning => "WARN"
  | info => "INFO"
  | debug => "DEBUG"

/-- The name of a level in settings. -/
def name : Level → String
  | error => "error"
  | warning => "warning"
  | info => "info"
  | debug => "debug"

/-- The level that a user writes, by name in any case or by rank. -/
def parse? (text : String) : Option Level :=
  match text.toLower with
  | "error" | "0" => some error
  | "warning" | "warn" | "1" => some warning
  | "info" | "2" => some info
  | "debug" | "3" => some debug
  | _ => none

/-- Whether a log set to `minimum` keeps an event of this level. -/
def passes (level minimum : Level) : Bool := level.rank ≤ minimum.rank

/-- The least verbose level a user may select. -/
def leastVerbose : Level := ofRank Limits.leastVerboseRank

/-- The level a log is set to when the user wants `level`. -/
def clamped (level : Level) : Level :=
  if level.rank < leastVerbose.rank then leastVerbose else level

end Level

end QueryMachine
