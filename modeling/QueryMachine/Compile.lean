import QueryMachine.Compile.Error
import QueryMachine.Dialect.Registry
import QueryMachine.Preferences
import QueryMachine.Render
import QueryMachine.Template.Parser
import QueryMachine.Token.Metrics

/-!
# Compilation

A template goes through four stages: it is cut into tokens, its regions are
instrumented, the tokens are parsed, and the tree is rendered with a dialect.
Each stage is one function here that gives its result with the notices that
come up; the compilation is their composition and stops at the first failure.
-/

namespace QueryMachine

/-- A compiled template. -/
structure Compiled where
  output : String
  /-- The reports of the regions, if they were asked for. -/
  reports : Array RegionReport
  tokenCount : Nat
  sourceName : String
  metrics : Metrics
  summary : Region.Summary

/-- How many regions the template has. -/
def Compiled.regionCount (c : Compiled) : Nat := c.summary.regions

/-- The result of a stage and the notices that came up in it. -/
abbrev Noted (ε α : Type) : Type := Except ε α × Array Notice

namespace Compile

/-- Cuts a template into tokens. -/
def tokenize (source : String) : Noted LexFailure Lexed :=
  match Lexer.tokenize source with
  | .ok lexed => (.ok lexed, #[.tokenized lexed.metrics])
  | .error failure =>
    (.error failure, #[.lexFailed failure.error failure.seen.tokens.size])

/-- Instruments the regions of a template. -/
def instrument (hooks : Hooks) (tokens : List (Located Token)) :
    Noted RegionError Region.Instrumented :=
  match Region.instrument hooks tokens with
  | .ok instrumented => (.ok instrumented, #[.instrumented instrumented.summary])
  | .error error => (.error error, #[.failed error.code error.message error.span])

/-- Parses the tokens of a template. -/
def parse (tokens : List (Located Token)) : Noted ParseError Template :=
  let result := Template.parse tokens
  let outcome : Notice :=
    match result with
    | .ok template => .parsed template.nodes.length template.regionCount
    | .error error => .failed error.code error.message error.span
  (result, #[.parsing tokens.length, outcome])

/-- A rendered template. -/
structure Output where
  text : String
  reports : Array RegionReport

/-- Renders a template with a new machine. -/
def render (d : Dialect) (policy : LabelPolicy) (t : Template) : Noted RenderError Output :=
  match t.render d policy {} with
  | (.ok text, s) => (.ok ⟨text, s.reports⟩, s.notices)
  | (.error error, s) =>
    (.error error, s.notices.push (.failed error.code error.message error.span))

/-- The result of a compilation whose stages have all succeeded. -/
def result (preferences : CompilerPreferences) (name : String) (lexed : Lexed)
    (summary : Region.Summary) (output : Output) : Compiled :=
  { output := if preferences.trimOutput then Text.trimString output.text else output.text
    reports := if preferences.collectReports then output.reports else #[]
    tokenCount := lexed.tokens.size
    sourceName := name
    metrics := lexed.metrics
    summary }

/-- The notice of a finished compilation. -/
def finished (d : Dialect) (c : Compiled) : Notice :=
  .compiled c.sourceName d.name c.regionCount c.tokenCount c.output.utf8ByteSize

end Compile

open Compile in
/-- Compiles the text of a template. The notices are those of the template
`name`. -/
def compile (d : Dialect) (preferences : CompilerPreferences) (name source : String) :
    Noted CompileError Compiled :=
  let started : Array Notice := #[.compiling name d.name preferences.strictLabels]
  match tokenize source with
  | (.error { error, .. }, notices) =>
    (.error (.lexical error),
      (started ++ notices).push (.failed error.code error.message error.span))
  | (.ok lexed, notices) =>
    let noted := (started ++ notices).push (.tokenCount lexed.tokens.size)
    match instrument {} lexed.tokens.toList with
    | (.error error, notices) => (.error (.region error), noted ++ notices)
    | (.ok instrumented, notices) =>
      let noted := (noted ++ notices).push (.regionsInstrumented instrumented.summary)
      match parse instrumented.tokens.toList with
      | (.error error, notices) => (.error (.parse error), noted ++ notices)
      | (.ok template, notices) =>
        let noted := (noted ++ notices).push (.nodeCount template.nodes.length)
        match render d preferences.policy template with
        | (.error error, notices) => (.error (.render error), noted ++ notices)
        | (.ok output, notices) =>
          let compiled := result preferences name lexed instrumented.summary output
          (.ok compiled, (noted ++ notices).push (finished d compiled))

/-- The notices of a template, with its name. -/
def recordsOf (name : String) (notices : Array Notice) : Array Record :=
  notices.map fun notice => ⟨notice, some name⟩

/-- Notices that belong to no template. -/
def plainRecords (notices : Array Notice) : Array Record :=
  notices.map fun notice => ⟨notice, none⟩

/-- The notice of a registration. -/
def Registry.registered (d : Dialect) : Notice :=
  .dialectRegistered d.name d.extensions.size

/-- The notices of setting up the registry that every build has. -/
def Registry.builtinNotices : Array Notice :=
  builtinDialects.toArray.map registered

/-- Compiles a template file with a dialect of the registry that every build
has. The dialect is looked up before the file. -/
def compileFile (preferences : CompilerPreferences) (dialect path : String)
    (status : FileStatus) : Except CompileError Compiled × Array Record :=
  let setUp := plainRecords Registry.builtinNotices
  match Registry.builtin.bind (·.get dialect) with
  | .error error =>
    (.error (.dialect error),
      setUp.push ⟨.dialectMissing error.code error.message dialect, none⟩)
  | .ok d =>
    match SourceFile.load path status true with
    | (.error error, notices) => (.error (.file error), setUp ++ plainRecords notices)
    | (.ok file, notices) =>
      let (result, more) := compile d preferences path file.source
      (result, setUp ++ plainRecords notices ++ recordsOf path more)

end QueryMachine
