import QueryMachine.Code
import QueryMachine.Preferences
import QueryMachine.Text.Json

/-!
# Settings as JSON

The preferences of a user, the limits of the build and the table of codes, for
tools that show them.
-/

namespace QueryMachine

open Text

/-- Compiler preferences as JSON. -/
def CompilerPreferences.toJson (p : CompilerPreferences) : Json :=
  .object
    [("default_dialect", .string p.defaultDialect), ("strict_labels", .bool p.strictLabels),
     ("trim_output", .bool p.trimOutput), ("collect_region_reports", .bool p.collectReports)]

/-- Logging preferences as JSON. -/
def LoggingPreferences.toJson (p : LoggingPreferences) : Json :=
  .object
    [("use_structured_logging", .bool p.structured),
     ("enable_console_logging", .bool p.console), ("min_log_level", .string p.minimum.name),
     ("include_file_context", .bool p.showTemplate)]

/-- The limits of the build as JSON fields. -/
def Limits.toFields : List (String × Json) :=
  [("profile", .string profile), ("source_info", .string provenance),
   ("max_file_size", .number maxFileSize), ("max_line_count", .number maxLineCount),
   ("max_string_size", .number maxStringSize), ("max_identifier_length", .number maxNameLength),
   ("max_token_count", .number maxTokenCount), ("max_nesting_depth", .number maxNesting),
   ("default_step_bits", .number defaultStepBits), ("max_step_bits", .number maxStepBits),
   ("max_labels_per_region", .number maxLabels), ("log_buffer_size", .number logBufferSize),
   ("max_log_message_length", .number maxMessageLength),
   ("security_level", .string Level.leastVerbose.tag)]

/-- What is known about a code, as JSON. -/
def Code.Metadata.toJson (m : Metadata) : Json :=
  .object
    [("code", .string m.code.text), ("category", .string m.category),
     ("severity", .string m.severity.name), ("recoverable", .bool m.recoverable),
     ("halt", .bool m.requiresHalt), ("description", .string m.description),
     ("action", .string m.action)]

end QueryMachine
