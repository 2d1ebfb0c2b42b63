import QueryMachine.Log.Level
import QueryMachine.Render.Resolve
import QueryMachine.Text.Blank

/-!
# Preferences

What a user may choose, read from environment variables. A variable that is
missing, or that does not read as a value of its kind, leaves the default.
-/

namespace QueryMachine

/-- The environment: the value of a variable, if it is set. -/
abbrev Environment : Type := String → Option String

namespace Environment

/-- A switch that is exactly `true` or `false`. -/
def switch (env : Environment) (name : String) (fallback : Bool) : Bool :=
  match env name with
  | some "true" => true
  | some "false" => false
  | _ => fallback

/-- A name that is not blank. -/
def named (env : Environment) (name : String) (fallback : String) : String :=
  match env name with
  | some text => if Text.isAllBlank text.toList then fallback else text
  | none => fallback

/-- A log level. -/
def level (env : Environment) (name : String) (fallback : Level) : Level :=
  ((env name).bind Level.parse?).getD fallback

end Environment

/-- How templates are compiled. -/
structure CompilerPreferences where
  /-- The dialect to use when none is named. -/
  defaultDialect : String := "mysql"
  /-- Whether a jump to an undefined label is an error. -/
  strictLabels : Bool := false
  /-- Whether the blanks around the output are removed. -/
  trimOutput : Bool := true
  /-- Whether the reports of the regions are kept. -/
  collectReports : Bool := true
  deriving DecidableEq, Repr

namespace CompilerPreferences

/-- The preferences of an environment. -/
def ofEnvironment (env : Environment) : CompilerPreferences :=
  let d : CompilerPreferences := {}
  { defaultDialect := env.named "SQLVM_DEFAULT_DIALECT" d.defaultDialect
    strictLabels := env.switch "SQLVM_STRICT_LABELS" d.strictLabels
    trimOutput := env.switch "SQLVM_TRIM_OUTPUT" d.trimOutput
    collectReports := env.switch "SQLVM_COLLECT_REGION_REPORTS" d.collectReports }

/-- The label policy that the preferences ask for. -/
def policy (p : CompilerPreferences) : LabelPolicy := .ofStrict p.strictLabels

end CompilerPreferences

/-- What is logged, and how. -/
structure LoggingPreferences where
  /-- Whether log lines are JSON. -/
  structured : Bool := false
  /-- Whether anything is logged. -/
  console : Bool := true
  /-- The level the user wants. -/
  minimum : Level := .warning
  /-- Whether events name the template that is being compiled. -/
  showTemplate : Bool := true
  deriving DecidableEq, Repr

namespace LoggingPreferences

/-- The preferences of an environment. -/
def ofEnvironment (env : Environment) : LoggingPreferences :=
  let d : LoggingPreferences := {}
  { structured := env.switch "SQLVM_LOGGING_USE_STRUCTURED" d.structured
    console := env.switch "SQLVM_LOGGING_ENABLE_CONSOLE" d.console
    minimum := env.level "SQLVM_LOGGING_MIN_LEVEL" d.minimum
    showTemplate := env.switch "SQLVM_LOGGING_INCLUDE_FILE_CONTEXT" d.showTemplate }

/-- The level the log is set to. -/
def level (p : LoggingPreferences) : Level := p.minimum.clamped

end LoggingPreferences

end QueryMachine
