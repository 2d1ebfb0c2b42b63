import QueryMachine.Token.Metrics

/-!
# Analyzers

An analyzer is a lexer that is kept: it cuts one template after the other into
tokens and can be asked for its counts after each of them. It works while the
machine runs. A token is counted and kept as soon as it is recognised, and
between two steps the analyzer knows whether the closer passed last removes the
blanks behind it. What it has gathered stays with it, also when a template
fails; it is cleared when the next one begins.
-/

namespace QueryMachine

/-- Whether the data that a state is about to read loses its first blanks. -/
def Lexer.State.trims (s : Lexer.State) : Bool :=
  match s.mode with
  | .data trim => trim
  | _ => false

/-- A lexer with what it has gathered. -/
structure Analyzer where
  metrics : Metrics := {}
  tokens : Array (Located Token) := #[]
  /-- Whether the next data loses its first blanks. -/
  trimsNext : Bool := false

namespace Analyzer

open Lexer

/-- An analyzer that is about to begin with a template. -/
def cleared (a : Analyzer) : Analyzer :=
  { a with metrics := {}, tokens := #[], trimsNext := false }

/-- Takes in a lexeme; a token beyond the limit is refused. -/
def accept (a : Analyzer) : Lexeme → Option LexError × Analyzer
  | .comment => (none, { a with metrics.comments := a.metrics.comments + 1 })
  | .token token =>
    if a.tokens.size < Limits.maxTokenCount then
      (none, { a with metrics := a.metrics.record token.value, tokens := a.tokens.push token })
    else (some (.tooManyTokens (a.tokens.size + 1) token.span), a)

/-- Runs the machine from a state and takes in what it recognises, up to the first error. -/
def run (a : Analyzer) (s : State) : Option LexError × Analyzer :=
  match _h : step s with
  | .more none next => run { a with trimsNext := next.trims } next
  | .more (some lexeme) next =>
    match accept { a with trimsNext := next.trims } lexeme with
    | (none, a) => run a next
    | (some error, a) => (some error, a)
  | .finished marker => a.accept (.token marker)
  | .failed error => (some error, a)
termination_by s.weight
decreasing_by all_goals exact weight_lt_of_step _h

/-- Cuts a template into tokens. The tokens are handed out if nothing fails. -/
def tokenize (a : Analyzer) (source : String) :
    Except LexError (Array (Located Token)) × Analyzer :=
  let a := a.cleared
  match a.run ⟨.data a.trimsNext, .start, source.toList⟩ with
  | (none, a) => (.ok a.tokens, { a with tokens := #[] })
  | (some error, a) => (.error error, a)

/-- Cuts templates into tokens, one after the other; with each answer go the
counts after it. -/
def tokenizeAll (a : Analyzer) :
    List String → List (Except LexError (Array (Located Token)) × Metrics)
  | [] => []
  | source :: sources =>
    let (answer, a) := a.tokenize source
    (answer, a.metrics) :: a.tokenizeAll sources

end Analyzer

end QueryMachine
