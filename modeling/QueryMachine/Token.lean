import QueryMachine.Position
import QueryMachine.Text.Quoted

/-!
# Tokens

The pieces a template is cut into. Between tags there is only data; inside the
two kinds of tags there are names, literals and punctuation; one marker stands
behind everything. Each kind has a wording for diagnostics and a spelling in
templates.
-/

namespace QueryMachine

/-- What a template is made of. -/
inductive Token where
  /-- Literal text outside of tags. -/
  | data (text : String)
  | blockBegin
  | blockEnd
  | variableBegin
  | variableEnd
  /-- The name of a function, a variable or a tag. -/
  | name (text : String)
  /-- A string literal, its escapes already read. -/
  | string (value : String)
  | integer (value : Int)
  | leftParen
  | rightParen
  | comma
  | assign
  | minus
  /-- The end of the input. -/
  | eof
  deriving DecidableEq, Repr, Inhabited

/-- A coarse classification of tokens. -/
inductive TokenClass where
  | data
  | delimiter
  | literal
  | identifier
  | punctuation
  | special
  deriving DecidableEq, Repr

namespace Token

/-- The class of a token. -/
def tokenClass : Token → TokenClass
  | data _ => .data
  | blockBegin | blockEnd | variableBegin | variableEnd => .delimiter
  | string _ | integer _ => .literal
  | name _ => .identifier
  | leftParen | rightParen | comma | assign | minus => .punctuation
  | eof => .special

/-- Whether two tokens are of one kind, whatever text or value they carry. -/
def sameKind : Token → Token → Bool
  | data _, data _ | blockBegin, blockBegin | blockEnd, blockEnd
  | variableBegin, variableBegin | variableEnd, variableEnd
  | name _, name _ | string _, string _ | integer _, integer _
  | leftParen, leftParen | rightParen, rightParen | comma, comma
  | assign, assign | minus, minus | eof, eof => true
  | _, _ => false

/-- Whether a token is the given name. -/
def isName (token : Token) (wanted : String) : Bool :=
  match token with
  | name text => text == wanted
  | _ => false

/-- Whether a token is literal text. -/
def isData : Token → Bool
  | data _ => true
  | _ => false

/-- Whether a token is the end marker. -/
def isEof : Token → Bool
  | eof => true
  | _ => false

/-- How diagnostics call a token. -/
def describe : Token → String
  | data _ => "template data"
  | blockBegin => "'\x7b%'"
  | blockEnd => "'%\x7d'"
  | variableBegin => "'\x7b\x7b'"
  | variableEnd => "'\x7d\x7d'"
  | name text => "name '" ++ text ++ "'"
  | string _ => "string literal"
  | integer value => "integer " ++ toString value
  | leftParen => "'('"
  | rightParen => "')'"
  | comma => "','"
  | assign => "'='"
  | minus => "'-'"
  | eof => "end of input"

/-- How a token is written in a template. -/
def sourceForm : Token → String
  | data text => text
  | blockBegin => "\x7b%"
  | blockEnd => "%\x7d"
  | variableBegin => "\x7b\x7b"
  | variableEnd => "\x7d\x7d"
  | name text => text
  | string value => Text.quoted value
  | integer value => toString value
  | leftParen => "("
  | rightParen => ")"
  | comma => ","
  | assign => "="
  | minus => "-"
  | eof => ""

theorem isEof_iff {t : Token} : t.isEof = true ↔ t = eof := by
  cases t <;> simp [isEof]

theorem sameKind_self (t : Token) : t.sameKind t = true := by
  cases t <;> rfl

end Token

end QueryMachine
