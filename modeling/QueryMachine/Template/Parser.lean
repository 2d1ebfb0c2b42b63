import QueryMachine.Limits
import QueryMachine.Region.Instrument
import QueryMachine.Template
import QueryMachine.Template.Error

/-!
# The template parser

A parser by recursive descent over a token cursor. Every function that reads
returns a cursor with fewer tokens left, as part of its result's type, so the
loops over arguments, items and nodes end because the tokens do.

Expressions are parsed with a nesting budget: a call spends one level of it on
its arguments and fails when none is left, which also is what bounds the
recursion. A region spends one level as well.
-/

namespace QueryMachine

namespace Parser

/-- What parsing at a cursor gives: a value and the cursor after it. -/
abbrev Parsed (c : Cursor) (α : Type) : Type := Except ParseError (α × c.After)

/-- Reads a token of the kind of `wanted`. -/
def expect (c : Cursor) (wanted : Token) : Parsed c (Located Token) :=
  (c.expect wanted).mapError .ofCursor

/-- Any name, as the kind of token to expect. -/
def anyName : Token := .name ""

/-- Any integer, as the kind of token to expect. -/
def anyInteger : Token := .integer 0

/-- Reads a name: its text and its span. -/
def expectName (c : Cursor) : Parsed c (String × Span) :=
  match expect c anyName with
  | .error error => .error error
  | .ok (token, rest) =>
    match token.value with
    | .name text => .ok ((text, token.span), rest)
    | other => .error (.unexpectedToken anyName.describe other.describe token.span)

/-- Reads an integer: its value and its span. -/
def expectInteger (c : Cursor) : Parsed c (Int × Span) :=
  match expect c anyInteger with
  | .error error => .error error
  | .ok (token, rest) =>
    match token.value with
    | .integer value => .ok ((value, token.span), rest)
    | other => .error (.unexpectedToken anyInteger.describe other.describe token.span)

/-- Reads one or more expressions with commas between them, at a cursor `d`
after `c`; `before` holds the reversed expressions read so far. -/
def argsFrom (parse : (c : Cursor) → Parsed c Expr) (c : Cursor) (d : c.After)
    (before : List Expr) : Parsed c (List Expr) :=
  match parse d.val with
  | .error error => .error error
  | .ok (arg, e) =>
    match e.val.advanceIf .comma with
    | some f => argsFrom parse c (d.trans (e.trans f)) (arg :: before)
    | none => .ok ((arg :: before).reverse, d.trans e)
termination_by d.val.remaining
decreasing_by exact Nat.lt_trans f.property e.property

/-- Reads the arguments of a call, from the token after the name on: the
arguments and the closing parenthesis. -/
def parseArgs (parse : (c : Cursor) → Parsed c Expr) (c : Cursor) :
    Parsed c (List Expr × Span) :=
  match expect c .leftParen with
  | .error error => .error error
  | .ok (_, d) =>
    let args : Parsed c (List Expr) :=
      if d.val.check .rightParen then .ok ([], d) else argsFrom parse c d []
    match args with
    | .error error => .error error
    | .ok (args, e) =>
      match expect e.val .rightParen with
      | .error error => .error error
      | .ok (close, f) => .ok ((args, close.span), e.trans f)

/-- Reads an expression with a nesting budget. -/
def parseExpr (budget : Nat) (c : Cursor) : Parsed c Expr :=
  match h : c.rest with
  | [] => .error (.unexpectedEnd "expression" c.last)
  | ⟨token, span⟩ :: rest =>
    let d : c.After := ⟨{ c with rest }, by simp [Cursor.remaining, h]⟩
    match token with
    | .string value => .ok (.str value span, d)
    | .integer value => .ok (.int value span, d)
    | .minus =>
      match expectInteger d.val with
      | .error error => .error error
      | .ok ((value, digits), e) => .ok (.int (-value) (span.cover digits), d.trans e)
    | .name name =>
      if d.val.check .leftParen then
        match budget with
        | 0 => .error (.nestingTooDeep span)
        | budget + 1 =>
          match parseArgs (parseExpr budget) d.val with
          | .error error => .error error
          | .ok ((args, close), e) => .ok (.call name args (span.cover close), d.trans e)
      else .ok (.var name span, d)
    | .eof => .error (.unexpectedEnd "expression" span)
    | other => .error (.unexpectedToken "expression" other.describe span)

/-- Reads `{{ expr }}`. -/
def parseOutput (budget : Nat) (c : Cursor) : Parsed c Item :=
  match expect c .variableBegin with
  | .error error => .error error
  | .ok (begin, d) =>
    match parseExpr budget d.val with
    | .error error => .error error
    | .ok (expr, e) =>
      match expect e.val .variableEnd with
      | .error error => .error error
      | .ok (close, f) =>
        .ok (.output expr (begin.span.cover close.span), d.trans (e.trans f))

/-- Reads the rest of `{% set name = expr %}`, from the name on. -/
def parseSet (budget : Nat) (begin : Span) (c : Cursor) : Parsed c Item :=
  match expectName c with
  | .error error => .error error
  | .ok ((name, _), d) =>
    match expect d.val .assign with
    | .error error => .error error
    | .ok (_, e) =>
      match parseExpr budget e.val with
      | .error error => .error error
      | .ok (value, f) =>
        match expect f.val .blockEnd with
        | .error error => .error error
        | .ok (close, g) =>
          .ok (.set name value (begin.cover close.span), d.trans (e.trans (f.trans g)))

/-- A block tag other than a closing one. -/
inductive Block where
  | item (item : Item)
  /-- The opening tag of a region. -/
  | opening (span : Span)

/-- Reads a block tag other than a closing one. -/
def parseBlock (budget : Nat) (c : Cursor) : Parsed c Block :=
  match expect c .blockBegin with
  | .error error => .error error
  | .ok (begin, d) =>
    match expectName d.val with
    | .error error => .error error
    | .ok ((tag, tagSpan), e) =>
      if tag = Region.openName then
        match expect e.val .blockEnd with
        | .error error => .error error
        | .ok (close, f) => .ok (.opening (begin.span.cover close.span), d.trans (e.trans f))
      else if tag = "set" then
        match parseSet budget begin.span e.val with
        | .error error => .error error
        | .ok (item, f) => .ok (.item item, d.trans (e.trans f))
      else .error (.unknownTag tag tagSpan)

/-- Reads the closing tag of a region. -/
def parseClose (c : Cursor) : Parsed c Unit :=
  match expect c .blockBegin with
  | .error error => .error error
  | .ok (_, d) =>
    match expectName d.val with
    | .error error => .error error
    | .ok (_, e) =>
      match expect e.val .blockEnd with
      | .error error => .error error
      | .ok (_, f) => .ok ((), d.trans (e.trans f))

/-- What the parser meets where a node can stand. -/
inductive Ahead where
  | finished
  | data (text : String) (span : Span)
  | output
  /-- A closing tag, from its `{%` to its name. -/
  | close (span : Span)
  | block
  | other (token : Located Token)

/-- What stands at a cursor. -/
def ahead (c : Cursor) : Ahead :=
  match c.rest with
  | [] => .finished
  | token :: rest =>
    match token.value with
    | .eof => .finished
    | .data text => .data text token.span
    | .variableBegin => .output
    | .blockBegin =>
      match rest with
      | name :: _ =>
        if name.value.isName Region.closeName then .close (token.span.cover name.span)
        else .block
      | [] => .block
    | _ => .other token

/-- The error at a token where no node can begin. -/
def misplaced (token : Located Token) : ParseError :=
  .unexpectedToken "template data or tag" token.value.describe token.span

theorem remaining_advance_lt {c : Cursor} {text : String} {span : Span}
    (h : ahead c = .data text span) : c.advance.remaining < c.remaining := by
  unfold ahead at h
  split at h
  · simp at h
  · rename_i hrest
    simp [Cursor.advance, Cursor.remaining, hrest]

/-- Reads the body of a region opened at `opened`, at a cursor `d` after `c`, to
the end of its closing tag; `before` holds the reversed items read so far. -/
def bodyFrom (budget : Nat) (opened : Span) (c : Cursor) (d : c.After)
    (before : List Item) : Parsed c (List Item) :=
  match h : ahead d.val with
  | .finished => .error (.unclosedRegion opened)
  | .data text span =>
    bodyFrom budget opened c (d.trans ⟨d.val.advance, remaining_advance_lt h⟩)
      (.data text span :: before)
  | .output =>
    match parseOutput budget d.val with
    | .error error => .error error
    | .ok (item, e) => bodyFrom budget opened c (d.trans e) (item :: before)
  | .close _ =>
    match parseClose d.val with
    | .error error => .error error
    | .ok (_, e) => .ok (before.reverse, d.trans e)
  | .block =>
    match parseBlock budget d.val with
    | .error error => .error error
    | .ok (.opening span, _) => .error (.nestedRegion span)
    | .ok (.item item, e) => bodyFrom budget opened c (d.trans e) (item :: before)
  | .other token => .error (misplaced token)
termination_by d.val.remaining
decreasing_by
  · exact remaining_advance_lt h
  · exact e.property
  · exact e.property

/-- Reads nodes to the end of the input; `before` holds the reversed nodes read
so far. -/
def nodesFrom (c : Cursor) (before : List Node) : Except ParseError (List Node) :=
  match _h : ahead c with
  | .finished => .ok before.reverse
  | .data text span => nodesFrom c.advance (.item (.data text span) :: before)
  | .output =>
    match parseOutput Limits.maxNesting c with
    | .error error => .error error
    | .ok (item, d) => nodesFrom d.val (.item item :: before)
  | .close span => .error (.unmatchedClose span)
  | .block =>
    match parseBlock Limits.maxNesting c with
    | .error error => .error error
    | .ok (.item item, d) => nodesFrom d.val (.item item :: before)
    | .ok (.opening span, d) =>
      match bodyFrom (Limits.maxNesting - 1) span c d [] with
      | .error error => .error error
      | .ok (body, e) => nodesFrom e.val (.region body span :: before)
  | .other token => .error (misplaced token)
termination_by c.remaining
decreasing_by
  · exact remaining_advance_lt _h
  · exact d.property
  · exact d.property
  · exact e.property

end Parser

/-- Parses a sequence of tokens up to its first end marker. -/
def Template.parse (tokens : List (Located Token)) : Except ParseError Template :=
  (Parser.nodesFrom (Cursor.ofTokens tokens) []).map fun nodes => ⟨nodes⟩

end QueryMachine
