/-!
# The limits of a build

A build fixes how large a template may be, how deep its expressions may nest
and how much a log may hold. Every other module reads these values from here;
none of them can be changed at run time.
-/

namespace QueryMachine.Limits

/-- Name of the build profile the limits belong to. -/
def profile : String := "development"

/-- Where the limits of the profile are written down. -/
def provenance : String := "Generated from config/" ++ profile ++ ".toml"

/-- Largest template file, in bytes. -/
def maxFileSize : Nat := 10485760

/-- Most lines a template file may have. -/
def maxLineCount : Nat := 100000

/-- Largest string literal, in bytes after its escapes are read. -/
def maxStringSize : Nat := 1048576

/-- Longest name inside a tag. -/
def maxNameLength : Nat := 255

/-- Most tokens a template may have, the end marker included. -/
def maxTokenCount : Nat := 1000000

/-- Deepest nesting of calls; a region counts as one level. -/
def maxNesting : Nat := 64

/-- Step budget exponent of a program that does not choose one. -/
def defaultStepBits : Nat := 8

/-- Largest step budget exponent a program may choose. -/
def maxStepBits : Nat := 40

/-- Most labels one region may define. -/
def maxLabels : Nat := 65536

/-- Most events a log buffer holds. -/
def logBufferSize : Nat := 10000

/-- Longest log message, in bytes, before it is cut. -/
def maxMessageLength : Nat := 4096

/-- Rank of the least verbose log level a user may select. -/
def leastVerboseRank : Nat := 1

end QueryMachine.Limits
