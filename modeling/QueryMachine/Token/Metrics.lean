import QueryMachine.Token.Lexer

/-!
# Counts over tokens

What a log and a compilation result say about the tokens of a template.
-/

namespace QueryMachine

/-- Counts over the tokens and comments of a text. -/
structure Metrics where
  totalTokens : Nat := 0
  dataTokens : Nat := 0
  expressionTags : Nat := 0
  blockTags : Nat := 0
  comments : Nat := 0
  /-- Bytes of the longest string literal. -/
  maxStringLength : Nat := 0
  deriving DecidableEq, Repr

/-- Counts one more token. -/
def Metrics.record (m : Metrics) (token : Token) : Metrics :=
  let m := { m with totalTokens := m.totalTokens + 1 }
  match token with
  | .data _ => { m with dataTokens := m.dataTokens + 1 }
  | .variableBegin => { m with expressionTags := m.expressionTags + 1 }
  | .blockBegin => { m with blockTags := m.blockTags + 1 }
  | .string value => { m with maxStringLength := max m.maxStringLength value.utf8ByteSize }
  | _ => m

/-- The counts over what was recognised in a text. -/
def Lexed.metrics (lexed : Lexed) : Metrics :=
  lexed.tokens.foldl (fun m token => m.record token.value) { comments := lexed.comments }

end QueryMachine
