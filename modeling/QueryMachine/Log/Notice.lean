import QueryMachine.Log.Event
import QueryMachine.Region.Instrument
import QueryMachine.Token.Metrics

/-!
# Notices

What the compiler says while it works. Each stage gives its notices as data, in
the order in which they come up; what they look like in a log is decided here
and nowhere else.

The time is known only to whoever runs the compiler, so it is filled in when a
notice becomes an event.
-/

namespace QueryMachine

/-- Readings of the clock; durations are texts as they are shown. -/
structure Clock where
  /-- Seconds since the epoch. -/
  now : Nat := 0
  /-- Milliseconds for loading a file, with two places. -/
  loading : String
  /-- Milliseconds for a compilation, with three places. -/
  compiling : String
  /-- Milliseconds for a compilation, with two places. -/
  compilingShort : String

/-- Something that the compiler says. -/
inductive Notice where
  | loggingReady
  | validating
  | lexicalLimits
  | dialectRegistered (dialect : String) (extensions : Nat)
  | validated (dialects : List String)
  | loading (file : String)
  | loaded (file : String) (size lines : Nat)
  | loadFailed (code : Code) (message file : String)
  | dialectMissing (code : Code) (message dialect : String)
  | compiling (template dialect : String) (strict : Bool)
  | tokenized (metrics : Metrics)
  | lexFailed (error : LexError) (tokensSoFar : Nat)
  | tokenCount (tokens : Nat)
  | instrumented (summary : Region.Summary)
  | regionsInstrumented (summary : Region.Summary)
  | parsing (tokens : Nat)
  | parsed (nodes regions : Nat)
  | nodeCount (nodes : Nat)
  | regionStarted (span : Span)
  | called (function : String) (arity : Nat) (counter : Int)
  | labelFallback (label : String) (span : Span)
  | regionCompiled (span : Span) (instructions labels thunks : Nat)
  /-- A failure at a place. -/
  | failed (code : Code) (message : String) (span : Span)
  | compiled (template dialect : String) (regions tokens outputBytes : Nat)
  | delivered (template language : String)

namespace Notice

/-- The event of a notice. -/
def event (clock : Clock) : Notice → Event
  | loggingReady => .success .ready "Global logging system initialized"
  | validating => .debug "Validating pipeline configuration"
  | lexicalLimits =>
    (Event.debug "Lexical limits").putAll
      [("max_string_size", toString Limits.maxStringSize),
       ("max_identifier_length", toString Limits.maxNameLength),
       ("max_token_count", toString Limits.maxTokenCount)]
  | dialectRegistered dialect extensions =>
    (Event.debug "Registered dialect").putAll
      [("dialect", dialect), ("extensions", toString extensions)]
  | validated dialects =>
    (Event.success .ready "Pipeline validation succeeded").put
      "dialects" (",".intercalate dialects)
  | loading file => (Event.debug "Loading template").put "file" file
  | loaded file size lines =>
    (Event.success .fileLoaded "Template loaded").putAll
      [("file", file), ("size_bytes", toString size), ("lines", toString lines),
       ("duration_ms", clock.loading)]
  | loadFailed code message file => (Event.error code message).put "file" file
  | dialectMissing code message dialect => (Event.error code message).put "dialect" dialect
  | compiling template dialect strict =>
    (Event.info "Compiling template").putAll
      [("template", template), ("dialect", dialect),
       ("strict_labels", if strict then "true" else "false")]
  | tokenized metrics =>
    (Event.debug "Template tokenized").putAll
      [("tokens", toString metrics.totalTokens), ("data_runs", toString metrics.dataTokens),
       ("expression_tags", toString metrics.expressionTags),
       ("block_tags", toString metrics.blockTags), ("comments", toString metrics.comments)]
  | lexFailed error tokensSoFar =>
    ((Event.error error.code error.message).located error.span).put
      "tokens_so_far" (toString tokensSoFar)
  | tokenCount tokens =>
    (Event.success .tokenized "Tokenization complete").put "tokens" (toString tokens)
  | instrumented summary =>
    (Event.debug "Template instrumented").putAll
      [("regions", toString summary.regions),
       ("statement_sites", toString summary.statementSites),
       ("injected_tokens", toString summary.injectedTokens)]
  | regionsInstrumented summary =>
    (Event.success .instrumented "Regions instrumented").putAll
      [("regions", toString summary.regions),
       ("statement_sites", toString summary.statementSites)]
  | parsing tokens =>
    (Event.debug "Starting syntax analysis").put "tokens" (toString tokens)
  | parsed nodes regions =>
    (Event.debug "Template parsed").putAll
      [("nodes", toString nodes), ("regions", toString regions)]
  | nodeCount nodes =>
    (Event.success .parsed "Template parsed").put "nodes" (toString nodes)
  | regionStarted span => (Event.debug "Rendering region").put "at" span.text
  | called function arity counter =>
    (Event.debug "Called dialect function").putAll
      [("function", function), ("arity", toString arity), ("pc", toString counter)]
  | labelFallback label span =>
    ((Event.codedWarning .labelFallback
      ("Jump to undefined label '" ++ label ++ "' uses the name as target")).located span).put
      "label" label
  | regionCompiled span instructions labels thunks =>
    (Event.success .regionCompiled "Region compiled").putAll
      [("at", span.text), ("instructions", toString instructions),
       ("labels", toString labels), ("thunks", toString thunks)]
  | failed code message span => (Event.error code message).located span
  | compiled template dialect regions tokens outputBytes =>
    (Event.success .compiled "Template compiled").putAll
      [("duration_ms", clock.compiling), ("template", template), ("dialect", dialect),
       ("regions", toString regions), ("tokens", toString tokens),
       ("output_bytes", toString outputBytes)]
  | delivered template language =>
    (Event.info "Template translated").putAll
      [("template", template), ("language", language)]

end Notice

/-- A notice and the template that was being compiled when it came up. -/
structure Record where
  notice : Notice
  template : Option String := none

/-- The event of a record; with `showTemplate` it names the template. -/
def Record.event (showTemplate : Bool) (clock : Clock) (r : Record) : Event :=
  { r.notice.event clock with timestamp := clock.now }.inTemplate showTemplate r.template

end QueryMachine
