import QueryMachine.Compile
import QueryMachine.Exchange.Token

/-!
# Results as JSON

What a compilation counts and reports, for tools that read it.
-/

namespace QueryMachine

open Text

/-- Counts over tokens as JSON. -/
def Metrics.toJson (m : Metrics) : Json :=
  .object
    [("total_tokens", .number m.totalTokens), ("data_tokens", .number m.dataTokens),
     ("expression_tags", .number m.expressionTags), ("block_tags", .number m.blockTags),
     ("comments", .number m.comments), ("max_string_length", .number m.maxStringLength)]

/-- What was put into the tokens, as JSON. -/
def Region.Summary.toJson (s : Region.Summary) : Json :=
  .object
    [("regions", .number s.regions), ("statement_sites", .number s.statementSites),
     ("injected_tokens", .number s.injectedTokens)]

/-- A placeholder as JSON. -/
def Thunk.toJson : Thunk → Json
  | jumpTo label => .object [("JumpTo", .string label)]
  | exit => .string "Exit"

/-- Labels and their instructions as JSON. -/
def labelsToJson (labels : Std.TreeMap String Int) : Json :=
  .object (labels.toList.map fun (name, counter) => (name, .number counter))

/-- The report of a region as JSON. -/
def RegionReport.toJson (r : RegionReport) : Json :=
  .object
    [("span", r.span.toJson), ("final_counter", .number r.finalCounter),
     ("labels", labelsToJson r.labels), ("thunks_resolved", .number r.thunksResolved),
     ("fallbacks", .array (r.fallbacks.toList.map .string)),
     ("instruction_count", .number r.instructionCount)]

/-- The state of a program under construction as JSON. -/
def Machine.toJson (m : Machine) : Json :=
  .object
    [("pc", .number m.counter), ("final", .number m.finalCounter),
     ("labels", labelsToJson m.labels), ("step_bits", .number m.stepBits)]

/-- A piece of rendered output as JSON. -/
def Segment.toJson : Segment → Json
  | text s => .object [("text", .string s)]
  | thunk t span => .object [("thunk", t.toJson), ("at", .string span.text)]

end QueryMachine
